import HeapWalk.Screen.Basic

/-!
# Colours

The colours of the inspector.
-/

set_option autoImplicit false

namespace HeapWalk.Screen.Theme

def text : Color := .rgb 205 214 244

def accent : Color := .rgb 137 180 250

def playing : Color := .rgb 250 179 135

def comment : Color := .rgb 108 112 134

def start : Color := .rgb 166 227 161

def error : Color := .rgb 243 139 168

def focusedBorder : Color := .rgb 249 226 175

def border : Color := .rgb 108 112 134

def bar : Color := .rgb 50 50 70

def scopeName : Color := .rgb 249 226 175

def value : Color := .rgb 250 179 135

/-- Bytes that a binding owns. -/
def owned : Color := .rgb 148 226 213

/-- Bytes of a temporary. -/
def temporary : Color := .rgb 245 194 231

def free : Color := .rgb 69 71 90

end HeapWalk.Screen.Theme

/-!
# UTF-8

Texts as the bytes that files hold, and back.
-/

namespace InvariantMachine

def utf8Bytes (text : String) : List UInt8 := text.toUTF8.data.toList

def utf8Text? (bytes : List UInt8) : Option String := String.fromUTF8? ⟨bytes.toArray⟩

end InvariantMachine

import StreamGrammar.Chunk

/-! # Alphabets

The ASCII alphabets behind the built-in character classes. A class takes characters and bytes alike. -/

namespace StreamGrammar.Alphabet

def digits : String := "0123456789"

def hexDigits : String := "0123456789abcdefABCDEF"

def octDigits : String := "01234567"

def letters : String := "abcdefghijklmnopqrstuvwxyzABCDEFGHIJKLMNOPQRSTUVWXYZ"

/-- Blanks within a line. -/
def spaces : String := " \t"

/-- Blanks, line breaks included. -/
def multispaces : String := " \t\r\n"

/-- The symbol is one of the alphabet, as a character or as a byte. -/
def holds (alphabet : String) (s : Symbol) : Bool :=
  alphabet.toList.any (s.isAscii ·)

end StreamGrammar.Alphabet

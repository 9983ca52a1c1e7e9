import Wff.Character.Alphanumerics
import Wff.Character.Blanks
import Wff.Character.Escapes
import Wff.Character.Letters
import Wff.Character.Numbers

/-!
# Wff.Character.Classes — what a character can be in a formula's text

Blanks separate, words are made of letters, numbers and underscores, and every other character
stands for itself.  Words go by the letters and numbers of Unicode 16.0; what is alphanumeric, and
what has a printed form, goes by Unicode 17.0.
-/

namespace Wff.Character

def isBlank (c : Char) : Bool := blankRanges.covers c.toNat

def isLetter (c : Char) : Bool := letterRanges.covers c.toNat

def isNumber (c : Char) : Bool := numberRanges.covers c.toNat

/-- Alphabetic, or a number.  All letters and numbers of words are; the underscore is not. -/
def isAlphanumeric (c : Char) : Bool :=
  isLetter c || isNumber c || otherAlphanumericRanges.covers c.toNat

/-- A word begins with a letter or an underscore. -/
def startsWord (c : Char) : Bool := isLetter c || c == '_'

def continuesWord (c : Char) : Bool := startsWord c || isNumber c

def isPrinted (c : Char) : Bool := !unprintedRanges.covers c.toNat

theorem isAlphanumeric_of_isLetter {c : Char} (h : isLetter c = true) :
    isAlphanumeric c = true := by
  simp [isAlphanumeric, h]

theorem isAlphanumeric_of_isNumber {c : Char} (h : isNumber c = true) :
    isAlphanumeric c = true := by
  simp [isAlphanumeric, h]

theorem continuesWord_of_startsWord {c : Char} (h : startsWord c = true) :
    continuesWord c = true := by
  simp [continuesWord, h]

end Wff.Character

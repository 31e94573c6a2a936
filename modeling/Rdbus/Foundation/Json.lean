import Mathlib.Data.List.Basic
import Mathlib.Tactic.Common

/-!
# JSON values

An object keeps its members by ascending keys, as a sorted map does.  What a
writer has to write as a string are the keys and the texts, in its own order.
-/

namespace Rdbus.Foundation

inductive Json (κ ν : Type) where
  | null
  | number (value : ν)
  | text (value : κ)
  | array (items : List (Json κ ν))
  | object (members : List (κ × Json κ ν))

namespace Json

variable {κ ν α : Type}

section Members

variable [DecidableEq κ] [LT κ] [DecidableLT κ]

/-- Assigning to a member of a sorted map. -/
def assign (key : κ) (value : α) : List (κ × α) → List (κ × α)
  | [] => [(key, value)]
  | (other, kept) :: members =>
      if key < other then (key, value) :: (other, kept) :: members
      else if key = other then (key, value) :: members
      else (other, kept) :: assign key value members

def member (key : κ) : List (κ × α) → Option α
  | [] => none
  | (other, kept) :: members => if key = other then some kept else member key members

/-- `j[ key ]` of an object. -/
def at? (key : κ) : Json κ ν → Option (Json κ ν)
  | .object members => member key members
  | _ => none

end Members

mutual

/-- What is written as a string, in the order of writing. -/
def strings : Json κ ν → List κ
  | .null | .number _ => []
  | .text value => [value]
  | .array items => stringsOfItems items
  | .object members => stringsOfMembers members

def stringsOfItems : List (Json κ ν) → List κ
  | [] => []
  | item :: items => item.strings ++ stringsOfItems items

def stringsOfMembers : List (κ × Json κ ν) → List κ
  | [] => []
  | (key, value) :: members => key :: value.strings ++ stringsOfMembers members

end

@[simp] theorem strings_text (value : κ) : (text value : Json κ ν).strings = [value] := rfl

@[simp] theorem strings_number (value : ν) : (number value : Json κ ν).strings = [] := rfl

@[simp] theorem strings_array (items : List (Json κ ν)) :
    (array items).strings = items.flatMap strings := by
  rw [strings]
  induction items with
  | nil => rfl
  | cons item items ih => rw [stringsOfItems, ih, List.flatMap_cons]

@[simp] theorem strings_object (members : List (κ × Json κ ν)) :
    (object members).strings = members.flatMap fun entry => entry.1 :: entry.2.strings := by
  rw [strings]
  induction members with
  | nil => rfl
  | cons entry members ih => rw [stringsOfMembers, ih, List.flatMap_cons]

end Json

end Rdbus.Foundation

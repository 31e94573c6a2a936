import Mathlib.Algebra.Group.Int.Defs
import Mathlib.Algebra.Group.Nat.Defs
import Mathlib.Data.List.Basic

/-!
# Strings and exceptions

`std::string` and `std::vector< uint8_t >` are lists of bytes.  A C++ function
that can leave by an exception is a function into `Except Throw`; the exception
classes that some `catch` clause of the program tells apart are the
constructors of `Throw`, and each carries its `what()` text with the prefixes
the class constructors put in front of it.

Reading outside a container is undefined behaviour.  It is a value of `Throw`
too, so that a run that performs it is visible, but no `catch` clause matches
it.
-/

namespace Rdbus

abbrev Bytes := List UInt8

/-- The bytes of a string literal. -/
def str (text : String) : Bytes := text.toUTF8.data.toList

inductive Throw where
  | parse (what : Bytes)
  | interpreter (what : Bytes)
  | response (what : Bytes)
  | modbus (what : Bytes)
  | os (what : Bytes)
  | timeout (what : Bytes)
  | eip (what : Bytes)
  | session (what : Bytes)
  | std (what : Bytes)
  | undefinedBehaviour
  deriving DecidableEq, Repr

namespace Throw

def what : Throw → Bytes
  | .parse what | .interpreter what | .response what | .modbus what | .os what
  | .timeout what | .eip what | .session what | .std what => what
  | .undefinedBehaviour => []

end Throw

def parseException (what : Bytes) : Throw :=
  .parse (str "Config parse exception - " ++ what)

def interpreterException (what : Bytes) : Throw :=
  .interpreter (str "Interpreter exception - " ++ what)

def osException (what : Bytes) : Throw :=
  .os (str "OS exception - " ++ what)

def osTimeout (what : Bytes) : Throw :=
  .timeout (str "OS exception - " ++ str "Timeout - " ++ what)

/-- `config::tools::throwIf`. -/
def throwIf (condition : Bool) (message : Bytes) : Except Throw Unit :=
  if condition then .error (parseException message) else .ok ()

/-- `xs[ i ]` of a vector, which checks nothing. -/
def index {α : Type} (xs : List α) (i : Nat) : Except Throw α :=
  match xs[i]? with
  | some x => .ok x
  | none => .error .undefinedBehaviour

/-- `std::string::substr`; a position behind the end throws `std::out_of_range`. -/
def substr (text : Bytes) (position count : Nat) : Except Throw Bytes :=
  if position ≤ text.length then .ok ((text.drop position).take count)
  else .error (.std (str "basic_string::substr: __pos (which is " ++
    str (toString position) ++ str ") > this->size() (which is " ++
    str (toString text.length) ++ str ")"))

/-- The difference of two sizes, which wraps round below zero. -/
def sizeSub (m n : Nat) : Nat := if n ≤ m then m - n else 2 ^ 64 + m - n

/-- The implicit conversion of a signed integer to `size_t`. -/
def sizeT (x : Int) : Nat := (x % 2 ^ 64).toNat

theorem throwIf_eq_ok {condition : Bool} {message : Bytes} :
    throwIf condition message = .ok () ↔ condition = false := by
  cases condition <;> simp [throwIf]

theorem throwIf_bind_eq_ok {α : Type} {condition : Bool} {message : Bytes}
    {rest : Unit → Except Throw α} {result : α} :
    (throwIf condition message >>= rest) = .ok result ↔
      condition = false ∧ rest () = .ok result := by
  cases condition <;> simp [throwIf, bind, Except.bind]

theorem index_of_lt {α : Type} {xs : List α} {i : Nat} (h : i < xs.length) :
    index xs i = .ok xs[i] := by
  simp [index, h]

theorem index_of_ge {α : Type} {xs : List α} {i : Nat} (h : xs.length ≤ i) :
    index xs i = .error .undefinedBehaviour := by
  simp [index, h]

theorem index_append_cons {α : Type} (before : List α) (x : α) (after : List α) :
    index (before ++ x :: after) before.length = .ok x := by
  rw [index_of_lt (by simp)]
  simp

theorem substr_of_le {text : Bytes} {position : Nat} (h : position ≤ text.length)
    (count : Nat) : substr text position count = .ok ((text.drop position).take count) := by
  simp [substr, h]

theorem sizeSub_of_le {m n : Nat} (h : n ≤ m) : sizeSub m n = m - n := by
  simp [sizeSub, h]

theorem sizeT_of_nonneg {x : Int} (h₀ : 0 ≤ x) (h : x < 2 ^ 64) :
    (sizeT x : Int) = x := by
  rw [sizeT, Int.emod_eq_of_lt h₀ h, Int.toNat_of_nonneg h₀]

end Rdbus

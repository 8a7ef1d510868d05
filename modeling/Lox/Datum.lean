import Lox.Decimal.Double
import Lox.Value

/-!
# Untyped data

Data from outside, before anyone has looked at what sort it is.
-/
namespace Lox

inductive Datum where
  | nil
  | bool (b : Bool)
  | int (n : Int)
  | number (x : Float)
  | string (s : String)
  /-- A date or a time of day. Which one is of no use here. -/
  | moment
  | list (items : List Datum)
  | table (entries : List (String × Datum))
  deriving Inhabited

/-- Data by name. -/
abbrev Fields := List (String × Datum)

namespace Fields

/-- Enters a datum under a name, in place of one that is there already. -/
def put (name : String) (d : Datum) : Fields → Fields
  | [] => [(name, d)]
  | (other, e) :: fs => if name == other then (name, d) :: fs else (other, e) :: put name d fs

theorem lookup_put (name k : String) (d : Datum) (fs : Fields) :
    (put name d fs).lookup k = if k == name then some d else fs.lookup k := by
  induction fs with
  | nil =>
      rw [put, List.lookup_cons, List.lookup_nil]
      cases k == name <;> rfl
  | cons f fs ih =>
      obtain ⟨other, e⟩ := f
      rw [put]
      split
      · rename_i h
        obtain rfl := eq_of_beq h
        rw [List.lookup_cons, List.lookup_cons]
        cases k == name <;> rfl
      · rename_i h
        rw [List.lookup_cons, List.lookup_cons, ih]
        by_cases hk : k = other
        · subst hk
          have hne : (k == name) = false := by
            rw [beq_eq_false_iff_ne]
            exact fun heq => h (beq_iff_eq.mpr heq.symm)
          rw [hne, beq_self_eq_true]
          rfl
        · rw [beq_eq_false_iff_ne.mpr hk]

/-- Enters fields over others. -/
def update (base : Fields) : Fields → Fields
  | [] => base
  | (name, d) :: top => put name d (update base top)

/-- What is entered hides what was there under its name, and nothing else. -/
theorem lookup_update (base top : Fields) (k : String) :
    (update base top).lookup k = (top.lookup k).or (base.lookup k) := by
  induction top with
  | nil => rfl
  | cons f top ih =>
      obtain ⟨name, d⟩ := f
      rw [update, lookup_put, ih, List.lookup_cons]
      cases k == name <;> rfl

end Fields

namespace Datum

/-- The value that a datum already is; otherwise the name of its sort. -/
def value : Datum → Except String Value
  | nil => .ok .nil
  | bool b => .ok (.bool b)
  | number x => .ok (.number x)
  | string s => .ok (.string s)
  | int _ => .error "int"
  | moment => .error "datetime"
  | list _ => .error "list"
  | table _ => .error "dict"

/-- The answer to a datum that is no value, given the name of its sort. -/
def notValue (sort : String) : String :=
  "Not a Lox value: " ++ sort

/-- What a datum amounts to as a number: an integer if it can, else a double. A
boolean counts as one or zero. -/
def amount? : Datum → Option (Int ⊕ Float)
  | bool b => some (.inl (if b then 1 else 0))
  | int n => some (.inl n)
  | number x =>
      match Decimal.integral x with
      | .whole n => some (.inl n)
      | _ => some (.inr x)
  | _ => none

/-- Whether two data amount to the same number. NaN amounts to none. -/
def sameAmount (d e : Datum) : Bool :=
  match d.amount?, e.amount? with
  | some (.inl m), some (.inl n) => m == n
  | some (.inr x), some (.inr y) => x == y
  | _, _ => false

mutual

/-- Sameness inside of lists and tables, where numbers of all sorts are compared
by what they amount to. -/
def alike : Datum → Datum → Bool
  | nil, nil => true
  | string s, string t => s == t
  | list xs, list ys => alikeItems xs ys
  | table es, table fs => es.length == fs.length && alikeEntries es fs
  | d, e => sameAmount d e

/-- Likeness item by item. -/
def alikeItems : List Datum → List Datum → Bool
  | [], [] => true
  | x :: xs, y :: ys => alike x y && alikeItems xs ys
  | _, _ => false

/-- Whether every entry has a like datum under its name in the other table. -/
def alikeEntries : List (String × Datum) → List (String × Datum) → Bool
  | [], _ => true
  | (k, x) :: es, fs =>
      (match fs.lookup k with
        | some y => alike x y
        | none => false) && alikeEntries es fs

end

/-- Sameness without any conversion between sorts. Numbers are compared as data;
lists and tables are the same if they are alike. -/
def same : Datum → Datum → Bool
  | nil, nil => true
  | bool a, bool b => a == b
  | int m, int n => m == n
  | number x, number y => x.toBits == y.toBits
  | string s, string t => s == t
  | list xs, list ys => alikeItems xs ys
  | table es, table fs => alike (table es) (table fs)
  | _, _ => false

end Datum

end Lox

import Mathlib.Data.List.Infix
import Mathlib.Data.Set.Basic
import Mathlib.Logic.Function.Basic

/-!
# Spaces of keys in one store

A store of values by keys holds many spaces: the keys of a space have a start of its own in front.
A command sets or removes a value of a space, or clears the space by its start.  Where no start
begins with another, a command on the store is the command on its own space, and the other
spaces are as before:

    Separate S starts → c.space ∈ S → i ∈ S →
      (c.onStore starts s).view (starts i) =
        if c.space = i then c.onSpace (s.view (starts i)) else s.view (starts i)   (view_onStore)
-/

namespace KeySpaces

variable {α β ι : Type}

abbrev Store (α β : Type) := List α → Option β

def empty : Store α β := fun _ => none

/-- The keys with a start in front, without it. -/
def Store.view (s : Store α β) (start : List α) : Store α β := fun key => s (start ++ key)

section

variable [DecidableEq α]

/-- Insert a value, or remove one. -/
def Store.set (s : Store α β) (key : List α) (value : Option β) : Store α β := Function.update s key value

/-- Remove all keys with a start in front. -/
def Store.clear (s : Store α β) (start : List α) : Store α β := fun key => if start <+: key then none else s key

/-- Neither start begins with the other. -/
def Apart (p q : List α) : Prop := ¬ p <+: q ∧ ¬ q <+: p

omit [DecidableEq α] in
theorem Apart.ne {p q : List α} (h : Apart p q) (k k' : List α) : p ++ k ≠ q ++ k' := by
  intro heq
  have hp : p <+: q ++ k' := ⟨k, heq⟩
  rcases List.prefix_or_prefix_of_prefix hp (List.prefix_append q k') with hpq | hqp
  · exact h.1 hpq
  · exact h.2 hqp

theorem view_set_self (s : Store α β) (p k : List α) (v : Option β) : (s.set (p ++ k) v).view p = (s.view p).set k v := by
  funext key
  unfold Store.view Store.set
  by_cases hkey : key = k
  · subst hkey
    rw [Function.update_self, Function.update_self]
  · rw [Function.update_of_ne hkey, Function.update_of_ne (fun heq => hkey (List.append_cancel_left heq))]

theorem view_set_apart {p q : List α} (h : Apart p q) (s : Store α β) (k : List α) (v : Option β) :
    (s.set (p ++ k) v).view q = s.view q := by
  funext key
  exact Function.update_of_ne (fun heq => h.ne k key heq.symm) _ _

theorem view_clear_self (s : Store α β) (p : List α) : (s.clear p).view p = empty := by
  funext key
  exact if_pos (List.prefix_append p key)

theorem view_clear_apart {p q : List α} (h : Apart p q) (s : Store α β) : (s.clear p).view q = s.view q := by
  funext key
  apply if_neg
  rintro ⟨k, heq⟩
  exact h.ne k key heq

/-! ## Commands -/

inductive Command (ι α β : Type)
  | set (space : ι) (key : List α) (value : Option β)
  | clear (space : ι)

def Command.space : Command ι α β → ι
  | .set i _ _ => i
  | .clear i => i

def Command.onStore (starts : ι → List α) (s : Store α β) : Command ι α β → Store α β
  | .set i key value => s.set (starts i ++ key) value
  | .clear i => s.clear (starts i)

/-- What a command does to its space. -/
def Command.onSpace (s : Store α β) : Command ι α β → Store α β
  | .set _ key value => s.set key value
  | .clear _ => empty

/-- The space after the commands that are for it. -/
def spaceAfter [DecidableEq ι] (s : Store α β) (commands : List (Command ι α β)) (i : ι) : Store α β :=
  (commands.filter (·.space = i)).foldl Command.onSpace s

theorem spaceAfter_snoc [DecidableEq ι] (s : Store α β) (commands : List (Command ι α β)) (c : Command ι α β) (i : ι) :
    spaceAfter s (commands ++ [c]) i =
      if c.space = i then c.onSpace (spaceAfter s commands i) else spaceAfter s commands i := by
  unfold spaceAfter
  rw [List.filter_append, List.foldl_append]
  by_cases h : c.space = i
  · rw [if_pos h, List.filter_cons_of_pos (by simpa using h)]
    rfl
  · rw [if_neg h, List.filter_cons_of_neg (by simpa using h)]
    rfl

/-- A space that no command is for. -/
theorem spaceAfter_of_none [DecidableEq ι] {s : Store α β} {commands : List (Command ι α β)} {i : ι}
    (h : ∀ c ∈ commands, c.space ≠ i) : spaceAfter s commands i = s := by
  unfold spaceAfter
  rw [List.filter_eq_nil_iff.mpr fun c hc => by simpa using h c hc]
  rfl

/-- No start of these spaces begins with the start of another one. -/
def Separate (S : Set ι) (starts : ι → List α) : Prop := ∀ i ∈ S, ∀ j ∈ S, starts i <+: starts j → i = j

omit [DecidableEq α] in
theorem Separate.apart {S : Set ι} {starts : ι → List α} (h : Separate S starts) {i j : ι} (hi : i ∈ S) (hj : j ∈ S)
    (hij : i ≠ j) : Apart (starts i) (starts j) :=
  ⟨fun hpre => hij (h i hi j hj hpre), fun hpre => hij (h j hj i hi hpre).symm⟩

theorem view_onStore [DecidableEq ι] {S : Set ι} {starts : ι → List α} (h : Separate S starts) {c : Command ι α β}
    (hc : c.space ∈ S) {i : ι} (hi : i ∈ S) (s : Store α β) : (c.onStore starts s).view (starts i) =
      if c.space = i then c.onSpace (s.view (starts i)) else s.view (starts i) := by
  cases c with
  | set j key value =>
    have hj : j ∈ S := hc
    show (s.set (starts j ++ key) value).view (starts i) = if j = i then (s.view (starts i)).set key value else _
    by_cases hji : j = i
    · subst hji
      rw [if_pos rfl, view_set_self]
    · rw [if_neg hji, view_set_apart (h.apart hj hi hji)]
  | clear j =>
    have hj : j ∈ S := hc
    show (s.clear (starts j)).view (starts i) = if j = i then empty else _
    by_cases hji : j = i
    · subst hji
      rw [if_pos rfl, view_clear_self]
    · rw [if_neg hji, view_clear_apart (h.apart hj hi hji)]

end

end KeySpaces

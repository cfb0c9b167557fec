/-
A stop-and-wait sender, as an abstract machine.

The sender works through a list of items in order. It transmits the
item it has begun as often as it likes, up to a limit, and begins the
next one once it has transmitted this one; what makes it transmit again
or move on is not the machine's business. Everything such a sender has
transmitted is then the list itself, each item repeated between one
time and the limit, and cut off somewhere (`shape`).

A protocol that retransmits is shown to have this shape by a simulation
into the machine (`Lts.Reach.simulates`).
-/
import BtOta.Lib.Lts
import Mathlib.Data.List.Count

namespace StopWait

variable {α : Type*}

-- ================================================================ counting

/-- Each item as often as its count says; items without a count do not
occur. The shape of what a sender transmits. -/
def expand (counts : List Nat) (items : List α) : List α :=
  (List.zipWith List.replicate counts items).flatten

@[simp] theorem expand_nil (items : List α) : expand [] items = [] := by
  simp [expand]

/-- One more count takes one more item, as long as there is one.
Beginning an item is the case of a count of zero. -/
theorem expand_snoc (counts : List Nat) (c : Nat) (items : List α) :
    expand (counts ++ [c]) items
      = expand counts items
        ++ (items[counts.length]?.toList.flatMap (List.replicate c)) := by
  induction counts generalizing items with
  | nil => cases items <;> simp [expand]
  | cons b counts ih =>
      cases items with
      | nil => simp [expand]
      | cons x items =>
          have h := ih items
          unfold expand at h
          simp [expand, h]

/-- A count of zero takes nothing. -/
@[simp] theorem expand_snoc_zero (counts : List Nat) (items : List α) :
    expand (counts ++ [0]) items = expand counts items := by
  rw [expand_snoc]
  cases items[counts.length]? <;> simp

/-- What occurs is one of the items that have a count. -/
theorem mem_take_of_mem_expand {counts : List Nat} {items : List α} {x : α}
    (h : x ∈ expand counts items) : x ∈ items.take counts.length := by
  induction counts generalizing items with
  | nil => simp at h
  | cons c counts ih =>
      cases items with
      | nil => simp [expand] at h
      | cons y items =>
          rw [List.length_cons, List.take_succ_cons]
          rcases List.mem_append.mp h with hy | hrest
          · rw [List.eq_of_mem_replicate hy]
            exact List.mem_cons_self ..
          · exact List.mem_cons_of_mem _ (ih hrest)

theorem expand_snoc_of {counts : List Nat} {items : List α} {x : α}
    (hx : items[counts.length]? = some x) (c : Nat) :
    expand (counts ++ [c]) items
      = expand counts items ++ List.replicate c x := by
  rw [expand_snoc, hx]
  simp

-- ============================================================= the machine

/-- Where the sender stands: how many items it has begun, how often it
has transmitted the last of them, and its output. -/
structure State (α : Type*) where
  /-- how many items have been begun -/
  begun : Nat
  /-- transmissions of the one begun last -/
  tries : Nat
  out : List α

/-- What the sender does next, which is the environment's choice. -/
inductive Cmd
  | advance
  | transmit

def start : State α := ⟨0, 0, []⟩

/-- One step: begin the next item, or transmit the one begun. An item is
left only once it has been transmitted. -/
def step (items : List α) (limit : Nat) (s : State α) :
    Cmd → Option (State α)
  | .advance =>
      if (s.begun = 0 ∨ 0 < s.tries) ∧ s.begun < items.length then
        some { s with begun := s.begun + 1, tries := 0 }
      else none
  | .transmit =>
      match s.begun with
      | 0 => none
      | k + 1 =>
          match items[k]? with
          | some x =>
              if s.tries < limit then
                some { s with tries := s.tries + 1, out := s.out ++ [x] }
              else none
          | none => none

variable {items : List α} {limit : Nat} {s s' : State α}

theorem step_advance (htried : s.begun = 0 ∨ 0 < s.tries)
    (hlt : s.begun < items.length) :
    step items limit s .advance
      = some { s with begun := s.begun + 1, tries := 0 } :=
  if_pos ⟨htried, hlt⟩

theorem step_transmit {k : Nat} {x : α} (hbegun : s.begun = k + 1)
    (hx : items[k]? = some x) (hlt : s.tries < limit) :
    step items limit s .transmit
      = some { s with tries := s.tries + 1, out := s.out ++ [x] } := by
  simp [step, hbegun, hx, hlt]

/-- What every run keeps: the output is cut into the counts of the items
left behind and the tries of the one begun last. -/
structure Inv (items : List α) (limit : Nat) (s : State α) : Prop where
  begun : s.begun ≤ items.length
  tries : s.tries ≤ limit
  zero : s.begun = 0 → s.tries = 0
  out : ∃ counts, counts.length = s.begun - 1
    ∧ (∀ c ∈ counts, 1 ≤ c ∧ c ≤ limit)
    ∧ s.out = expand (counts ++ [s.tries]) items

theorem inv_start : Inv items limit start where
  begun := Nat.zero_le _
  tries := Nat.zero_le _
  zero := fun _ => rfl
  out := ⟨[], rfl, by simp, ((expand_snoc_zero [] items).trans
    (expand_nil items)).symm⟩

theorem Inv.advance (hi : Inv items limit s)
    (h : step items limit s .advance = some s') : Inv items limit s' := by
  simp only [step] at h
  split at h
  case isFalse => cases h
  case isTrue hlt =>
    cases h
    obtain ⟨counts, hlen, hbound, hout⟩ := hi.out
    refine ⟨hlt.2, Nat.zero_le _, fun _ => rfl, ?_⟩
    by_cases hzero : s.begun = 0
    · refine ⟨[], by simp [hzero], by simp, ?_⟩
      have hnil : counts = [] := List.length_eq_zero_iff.mp (by omega)
      rw [hout, hnil, hi.zero hzero]
    · -- the item behind has its count now
      have htried := hlt.1.resolve_left hzero
      refine ⟨counts ++ [s.tries], ?_, ?_, ?_⟩
      · rw [List.length_append, hlen]
        show s.begun - 1 + 1 = s.begun + 1 - 1
        omega
      · intro c hc
        rcases List.mem_append.mp hc with hc | hc
        · exact hbound c hc
        · rw [List.mem_singleton.mp hc]
          exact ⟨htried, hi.tries⟩
      · rw [expand_snoc_zero]
        exact hout

theorem Inv.transmit (hi : Inv items limit s)
    (h : step items limit s .transmit = some s') : Inv items limit s' := by
  obtain ⟨counts, hlen, hbound, hout⟩ := hi.out
  simp only [step] at h
  split at h
  case h_1 => cases h
  case h_2 k hk =>
    split at h
    case h_2 => cases h
    case h_1 x hx =>
      split at h
      case isFalse => cases h
      case isTrue hlt =>
        cases h
        have hx' : items[counts.length]? = some x := by
          rw [hlen, hk]
          exact hx
        refine ⟨hi.begun, hlt, ?_, counts, hlen, hbound, ?_⟩
        · intro hzero
          cases hk.symm.trans hzero
        · show s.out ++ [x] = expand (counts ++ [s.tries + 1]) items
          rw [hout, expand_snoc_of hx', expand_snoc_of hx',
            List.replicate_succ', List.append_assoc]

theorem inv_of_reach (h : Lts.Reach (step items limit) Lts.free start s) :
    Inv items limit s := by
  apply h.invariant inv_start
  intro s a s' hi _ hs
  cases a with
  | advance => exact hi.advance hs
  | transmit => exact hi.transmit hs

-- =============================================================== the shape

/-- Each of the first items between one time and the limit, in order,
and nothing else. -/
def Shape (items : List α) (limit : Nat) (counts : List Nat)
    (out : List α) : Prop :=
  out = expand counts items ∧ counts.length ≤ items.length
    ∧ ∀ c ∈ counts, 1 ≤ c ∧ c ≤ limit

/-- What a stop-and-wait sender has transmitted, in every run: the items
it has begun, in order, each between one time and the limit. -/
theorem shape (h : Lts.Reach (step items limit) Lts.free start s) :
    ∃ counts, Shape items limit counts s.out
      ∧ ((s.begun = 0 ∨ 0 < s.tries) → counts.length = s.begun) := by
  have hi := inv_of_reach h
  obtain ⟨counts, hlen, hbound, hout⟩ := hi.out
  by_cases htries : s.tries = 0
  · refine ⟨counts, ⟨?_, ?_, hbound⟩, ?_⟩
    · rw [hout, htries, expand_snoc_zero]
    · have := hi.begun
      omega
    · intro h
      omega
  · have hpos : s.begun ≠ 0 := fun hzero => htries (hi.zero hzero)
    have hlen' : (counts ++ [s.tries]).length = s.begun := by
      rw [List.length_append, hlen]
      show s.begun - 1 + 1 = s.begun
      omega
    refine ⟨counts ++ [s.tries], ⟨hout, ?_, ?_⟩, fun _ => hlen'⟩
    · rw [hlen']
      exact hi.begun
    · intro c hc
      rcases List.mem_append.mp hc with hc | hc
      · exact hbound c hc
      · rw [List.mem_singleton.mp hc]
        exact ⟨by omega, hi.tries⟩

/-- The item begun last has been transmitted as often as it was tried,
and equal items before it can only add to that. -/
theorem tries_le_count [BEq α] [LawfulBEq α] {k : Nat} {x : α}
    (h : Lts.Reach (step items limit) Lts.free start s)
    (hbegun : s.begun = k + 1) (hx : items[k]? = some x) :
    s.tries ≤ s.out.count x := by
  obtain ⟨counts, hlen, -, hout⟩ := (inv_of_reach h).out
  have hx' : items[counts.length]? = some x := by
    rw [hlen, hbegun]
    exact hx
  rw [hout, expand_snoc_of hx', List.count_append,
    List.count_replicate_self]
  exact Nat.le_add_left _ _

end StopWait

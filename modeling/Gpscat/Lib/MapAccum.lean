import Mathlib.Algebra.BigOperators.Group.List.Basic
import Mathlib.Data.List.Nodup
import Mathlib.Data.BitVec

/-!
# Traversals that thread a state

`mapAccum` rewrites the elements of a list from left to right and threads a state through them. The
rules below are for traversals that number what they meet with a counter of fixed width.
-/

namespace MapAccum

variable {σ α β γ : Type}

/-- The rewritten list, and the state after its last element. -/
def mapAccum (f : σ → α → β × σ) : σ → List α → List β × σ
  | s, [] => ([], s)
  | s, a :: as =>
    let r := f s a
    let rs := mapAccum f r.2 as
    (r.1 :: rs.1, rs.2)

@[simp] theorem length_mapAccum (f : σ → α → β × σ) (s : σ) (as : List α) :
    (mapAccum f s as).1.length = as.length := by
  induction as generalizing s with
  | nil => rfl
  | cons a as ih => rw [mapAccum, List.length_cons, List.length_cons, ih]

/-- Every element is rewritten by `f` in some state. -/
theorem getElem?_mapAccum (f : σ → α → β × σ) (s : σ) (as : List α) (i : Nat) :
    ∃ s', (mapAccum f s as).1[i]? = as[i]?.map fun a => (f s' a).1 := by
  induction as generalizing s i with
  | nil => exact ⟨s, rfl⟩
  | cons a as ih =>
    cases i with
    | zero => exact ⟨s, rfl⟩
    | succ i => exact ih (f s a).2 i

/-- What is common to all rewritten elements. -/
theorem mem_mapAccum {f : σ → α → β × σ} {s : σ} {as : List α} {b : β}
    (h : b ∈ (mapAccum f s as).1) : ∃ a ∈ as, ∃ s', b = (f s' a).1 := by
  induction as generalizing s with
  | nil => exact absurd h List.not_mem_nil
  | cons a as ih =>
    rcases List.mem_cons.mp h with rfl | h
    · exact ⟨a, List.mem_cons_self, s, rfl⟩
    · obtain ⟨a', ha', s', hb⟩ := ih h
      exact ⟨a', List.mem_cons_of_mem _ ha', s', hb⟩

/-- A view of the elements that every step keeps is kept. -/
theorem map_mapAccum {f : σ → α → β × σ} {view : β → γ} {view' : α → γ} {as : List α}
    (h : ∀ a ∈ as, ∀ s, view (f s a).1 = view' a) (s : σ) :
    (mapAccum f s as).1.map view = as.map view' := by
  induction as generalizing s with
  | nil => rfl
  | cons a as ih =>
    rw [mapAccum, List.map_cons, List.map_cons, h a List.mem_cons_self,
      ih fun a' ha' => h a' (List.mem_cons_of_mem _ ha')]

theorem fst_mapAccum_append (f : σ → α → β × σ) (s : σ) (as bs : List α) :
    (mapAccum f s (as ++ bs)).1 =
      (mapAccum f s as).1 ++ (mapAccum f (mapAccum f s as).2 bs).1 := by
  induction as generalizing s with
  | nil => rfl
  | cons a as ih => rw [List.cons_append, mapAccum, ih, mapAccum, List.cons_append]

/-- What every step keeps holds of the last state. -/
theorem mapAccum_invariant {f : σ → α → β × σ} {P : σ → Prop} {as : List α}
    (h : ∀ a ∈ as, ∀ s, P s → P (f s a).2) {s : σ} (hs : P s) : P (mapAccum f s as).2 := by
  induction as generalizing s with
  | nil => exact hs
  | cons a as ih =>
    exact ih (fun a' ha' => h a' (List.mem_cons_of_mem _ ha')) (h a List.mem_cons_self s hs)

/-- Nothing is rewritten when no step rewrites anything. -/
theorem mapAccum_of_fixed {f : σ → α → α × σ} {as : List α} (h : ∀ a ∈ as, ∀ s, f s a = (a, s))
    (s : σ) : mapAccum f s as = (as, s) := by
  induction as with
  | nil => rfl
  | cons a as ih =>
    rw [mapAccum, h a List.mem_cons_self]
    dsimp only
    rw [ih fun a' ha' => h a' (List.mem_cons_of_mem _ ha')]

/-! ## Counters -/

section Counters

variable {w : Nat}

/-- The `n` values of a counter from `start` on. -/
def numbered : BitVec w → Nat → List (BitVec w)
  | _, 0 => []
  | start, n + 1 => start :: numbered (start + 1#w) n

theorem numbered_add (start : BitVec w) (m n : Nat) :
    numbered start (m + n) = numbered start m ++ numbered (start + BitVec.ofNat w m) n := by
  induction m generalizing start with
  | zero => rw [Nat.zero_add, numbered, List.nil_append, BitVec.add_zero]
  | succ m ih =>
    have hnext : start + 1#w + BitVec.ofNat w m = start + BitVec.ofNat w (m + 1) := by
      rw [BitVec.add_assoc, BitVec.ofNat_add_ofNat, Nat.add_comm 1 m]
    rw [Nat.succ_add, numbered, ih, hnext, numbered, List.cons_append]

/-- Without a wrap around, the values are the numbers from `start` on. -/
theorem map_toNat_numbered {start : BitVec w} {n : Nat} (h : start.toNat + n ≤ 2 ^ w) :
    (numbered start n).map BitVec.toNat = List.range' start.toNat n := by
  induction n generalizing start with
  | zero => rfl
  | succ n ih =>
    cases n with
    | zero => rfl
    | succ n =>
      have hnext : (start + 1#w).toNat = start.toNat + 1 := by
        have hone : (1#w).toNat = 1 := by
          rw [BitVec.toNat_ofNat, Nat.mod_eq_of_lt (by omega)]
        rw [BitVec.toNat_add, hone, Nat.mod_eq_of_lt (by omega)]
      rw [numbered, List.map_cons, ih (by omega), hnext, List.range'_succ (n := n + 1)]

theorem nodup_numbered {start : BitVec w} {n : Nat} (h : start.toNat + n ≤ 2 ^ w) :
    (numbered start n).Nodup := by
  refine List.Nodup.of_map BitVec.toNat ?_
  rw [map_toNat_numbered h]
  exact List.nodup_range'

theorem ne_zero_of_mem_numbered {start : BitVec w} {n : Nat} (h : start.toNat + n ≤ 2 ^ w)
    (hpos : 0 < start.toNat) {x : BitVec w} (hx : x ∈ numbered start n) : x ≠ 0 := by
  rintro rfl
  have hmem : (0#w).toNat ∈ (numbered start n).map BitVec.toNat := List.mem_map_of_mem hx
  rw [map_toNat_numbered h, List.mem_range'_1, BitVec.toNat_zero] at hmem
  omega

/-- A counter that runs past its last value comes to 0. -/
theorem zero_mem_numbered {start : BitVec w} {n : Nat} (h : 2 ^ w < start.toNat + n) :
    0#w ∈ numbered start n := by
  have hstart : start.toNat < 2 ^ w := start.isLt
  obtain ⟨k, hk⟩ : ∃ k, n = (2 ^ w - start.toNat) + (k + 1) :=
    ⟨n - (2 ^ w - start.toNat) - 1, by omega⟩
  have hwrap : start + BitVec.ofNat w (2 ^ w - start.toNat) = 0#w := by
    refine BitVec.eq_of_toNat_eq ?_
    rw [BitVec.toNat_add, BitVec.toNat_ofNat, Nat.add_mod_mod, BitVec.toNat_zero,
      Nat.add_sub_cancel' hstart.le, Nat.mod_self]
  rw [hk, numbered_add, hwrap]
  exact List.mem_append_right _ List.mem_cons_self

/-- A step that numbers the `size a` parts of `a`, which `out` shows. -/
def Numbers (f : σ → α → β × σ) (counter : σ → BitVec w) (size : α → Nat)
    (out : β → List (BitVec w)) (a : α) : Prop :=
  ∀ s, out (f s a).1 = numbered (counter s) (size a) ∧
    counter (f s a).2 = counter s + BitVec.ofNat w (size a)

/-- A traversal whose steps number the parts of the elements numbers the parts of the list. -/
theorem Numbers.mapAccum {f : σ → α → β × σ} {counter : σ → BitVec w} {size : α → Nat}
    {out : β → List (BitVec w)} {as : List α} (h : ∀ a ∈ as, Numbers f counter size out a) :
    Numbers (mapAccum f) counter (fun as => (as.map size).sum) (fun bs => bs.flatMap out) as := by
  induction as with
  | nil => exact fun s => ⟨rfl, (BitVec.add_zero _).symm⟩
  | cons a as ih =>
    intro s
    obtain ⟨hout, hcounter⟩ := h a List.mem_cons_self s
    obtain ⟨houts, hcounters⟩ := ih (fun a' ha' => h a' (List.mem_cons_of_mem _ ha')) (f s a).2
    constructor
    · change out (f s a).1 ++ (MapAccum.mapAccum f (f s a).2 as).1.flatMap out =
        numbered (counter s) (size a + (as.map size).sum)
      rw [numbered_add, hout, ← hcounter]
      exact congrArg _ houts
    · change counter (MapAccum.mapAccum f (f s a).2 as).2 =
        counter s + BitVec.ofNat w (size a + (as.map size).sum)
      rw [hcounters, hcounter, BitVec.add_assoc, BitVec.ofNat_add_ofNat]

/-- What the steps add to a counter. -/
theorem mapAccum_counter {f : σ → α → β × σ} {counter : σ → BitVec w} {size : α → Nat}
    {as : List α}
    (h : ∀ a ∈ as, ∀ s, counter (f s a).2 = counter s + BitVec.ofNat w (size a)) (s : σ) :
    counter (mapAccum f s as).2 = counter s + BitVec.ofNat w (as.map size).sum := by
  induction as generalizing s with
  | nil => exact (BitVec.add_zero _).symm
  | cons a as ih =>
    show counter (mapAccum f (f s a).2 as).2 = _
    rw [ih (fun a' ha' => h a' (List.mem_cons_of_mem _ ha')), h a List.mem_cons_self,
      BitVec.add_assoc, BitVec.ofNat_add_ofNat]
    rfl

/-- A traversal whose steps depend on the counter alone: every element is rewritten at the value that
the elements before it have brought the counter to. -/
theorem mapAccum_eq_mapIdx {f : σ → α → β × σ} (counter : σ → BitVec w) {size : α → Nat}
    (g : BitVec w → α → β) {as : List α}
    (h : ∀ a ∈ as, ∀ s, (f s a).1 = g (counter s) a ∧
      counter (f s a).2 = counter s + BitVec.ofNat w (size a)) (s : σ) :
    (mapAccum f s as).1 =
      as.mapIdx fun i a => g (counter s + BitVec.ofNat w ((as.take i).map size).sum) a := by
  induction as generalizing s with
  | nil => rfl
  | cons a as ih =>
    obtain ⟨hout, hcounter⟩ := h a List.mem_cons_self s
    have hrest := ih (fun a' ha' => h a' (List.mem_cons_of_mem _ ha')) (f s a).2
    rw [hcounter] at hrest
    have hzero : counter s + BitVec.ofNat w (((a :: as).take 0).map size).sum = counter s := by
      simp
    rw [mapAccum, List.mapIdx_cons, hzero, hout, hrest]
    simp only [List.take_succ_cons, List.map_cons, List.sum_cons, BitVec.ofNat_add, BitVec.add_assoc]

end Counters

/-- A flag that the elements with a mark set. -/
theorem mapAccum_flag {f : σ → α → β × σ} {flag : σ → Bool} {mark : α → Bool} {as : List α}
    (h : ∀ a ∈ as, ∀ s, flag (f s a).2 = (flag s || mark a)) (s : σ) :
    flag (mapAccum f s as).2 = (flag s || as.any mark) := by
  induction as generalizing s with
  | nil => exact (Bool.or_false _).symm
  | cons a as ih =>
    show flag (mapAccum f (f s a).2 as).2 = _
    rw [ih fun a' ha' => h a' (List.mem_cons_of_mem _ ha'), h a List.mem_cons_self, Bool.or_assoc,
      List.any_cons]

end MapAccum

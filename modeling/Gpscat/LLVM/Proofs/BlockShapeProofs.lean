import Gpscat.LLVM.BlockShape

/-!
# Insertion and the shape of blocks

An instruction that no rule is about can be put before the terminator of a block, unless it parts a
`musttail` call from the `ret`, or comes before a `catchswitch`.
-/

namespace LLVM

namespace BasicBlock

variable {BB : BasicBlock} {I : Instruction}

theorem getFirstNonPHI_insert (hI : I.isPhi = false) :
    (BB.insertBeforeTerminator I).getFirstNonPHI = BB.getFirstNonPHI := by
  have hstop : [I].takeWhile Inst.isPhi = [] := List.takeWhile_cons_of_neg (by rw [hI]; simp)
  unfold getFirstNonPHI insertBeforeTerminator
  rw [List.takeWhile_append, hstop, List.append_nil]
  split_ifs with hall
  · exact hall.symm
  · rfl

theorem getFirstNonPHI_le (BB : BasicBlock) : BB.getFirstNonPHI ≤ BB.body.length :=
  (List.takeWhile_sublist _).length_le

/-- Nothing but a bitcast can stand between a `musttail` call and the `ret`. -/
theorem not_endsInRet (hI : I.Plain) (call : Instruction) (rest : List Instruction)
    (term : Terminator) : EndsInRet call (rest ++ [I]) term = false := by
  cases rest with
  | nil => rw [List.nil_append, EndsInRet, hI.cast, Bool.false_and]
  | cons J rest =>
    cases rest with
    | nil => rfl
    | cons K rest => rfl

theorem length_insert : (BB.insertBeforeTerminator I).body.length = BB.body.length + 1 :=
  List.length_append

/-- The instructions that were there keep their positions. -/
theorem getElem_insert {i : Nat} (hlt : i < BB.body.length)
    (hi : i < (BB.insertBeforeTerminator I).body.length) :
    (BB.insertBeforeTerminator I).body[i] = BB.body[i] :=
  List.getElem_append_left hlt

/-- What does not hold of the inserted instruction holds of one that was there. -/
theorem of_getElem_insert {P : Instruction → Bool} (hP : P I = false) {i : Nat}
    (hi : i < (BB.insertBeforeTerminator I).body.length)
    (hPi : P (BB.insertBeforeTerminator I).body[i] = true) :
    ∃ hlt : i < BB.body.length, P BB.body[i] = true := by
  have hlen := BB.length_insert (I := I)
  rcases Nat.lt_or_ge i BB.body.length with hlt | hge
  · exact ⟨hlt, by rwa [getElem_insert hlt hi] at hPi⟩
  · have hlast : (BB.insertBeforeTerminator I).body[i] = I := by
      obtain rfl : i = BB.body.length := by omega
      exact List.getElem_concat_length rfl _
    rw [hlast, hP] at hPi
    exact absurd hPi Bool.false_ne_true

/-- A plain instruction can be put before the terminator, unless that parts it from a `musttail` call
or it is a `catchswitch`. -/
theorem wellShaped_insert_iff (hI : I.Plain) (hBB : BB.WellShaped) :
    (BB.insertBeforeTerminator I).WellShaped ↔ BB.AllowsInsertion := by
  have hlen := BB.length_insert (I := I)
  have hfirst : (BB.insertBeforeTerminator I).getFirstNonPHI = BB.getFirstNonPHI :=
    getFirstNonPHI_insert hI.phi
  constructor
  · intro h
    constructor
    · intro J hJ
      obtain ⟨i, hi, rfl⟩ := List.getElem_of_mem hJ
      by_contra htail
      rw [Bool.not_eq_false] at htail
      have hends := h.tail i (by omega) (by rw [getElem_insert hi (by omega)]; exact htail)
      have hdrop : (BB.insertBeforeTerminator I).body.drop (i + 1) = BB.body.drop (i + 1) ++ [I] :=
        List.drop_append_of_le_length hi
      rw [hdrop, not_endsInRet hI] at hends
      exact absurd hends Bool.false_ne_true
    · by_contra hswitch
      rw [Bool.not_eq_false] at hswitch
      have hall := h.catchSwitch hswitch
      have hle := BB.getFirstNonPHI_le
      omega
  · intro h
    -- The inserted instruction is the last one of the new body, and no rule is about it.
    constructor
    · intro i hi htail
      obtain ⟨hlt, htail⟩ := of_getElem_insert hI.tail hi htail
      rw [h.1 _ (List.getElem_mem hlt)] at htail
      exact absurd htail Bool.false_ne_true
    · intro i hi hpad
      obtain ⟨hlt, hpad⟩ := of_getElem_insert hI.pad hi hpad
      rw [hfirst]
      exact hBB.pad i hlt hpad
    · intro hswitch
      exact absurd (h.2.symm.trans hswitch) Bool.false_ne_true
    · intro i hi hphi
      obtain ⟨hlt, hphi⟩ := of_getElem_insert hI.phi hi hphi
      rw [hfirst]
      exact hBB.phi i hlt hphi

end BasicBlock

end LLVM

import Gpscat.DebugValues
import Gpscat.LLVM.Proofs.BlockErasureProofs
import Gpscat.Proofs.IRLocatorProofs

/-!
# Debugify keeps the shape of the blocks

The loop that attaches the debug values has two phases. As long as it is at a PHI, it inserts behind
all PHIs; from then on it inserts behind the instruction it is at, and steps over what it has
inserted.
-/

namespace Gpscat.Debugify

open Cpp LLVM MapAccum ListEdit

/-! ## The loop -/

theorem insertIdx_length {α : Type} (l l' : List α) (x : α) :
    (l ++ l').insertIdx l.length x = l ++ x :: l' := by
  induction l with
  | nil => rfl
  | cons a l ih => rw [List.cons_append, List.length_cons, List.insertIdx_succ_cons, ih]; rfl

/-- An element behind a part that has been replaced. -/
theorem getElem_append_drop {α : Type} {l l' : List α} {k j : Nat}
    (hi : l'.length + j < (l' ++ l.drop k).length) :
    ∃ hj : k + j < l.length, (l' ++ l.drop k)[l'.length + j] = l[k + j] ∧
      (l' ++ l.drop k).drop (l'.length + j + 1) = l.drop (k + j + 1) := by
  have hj : k + j < l.length := by
    rw [List.length_append, List.length_drop] at hi
    omega
  refine ⟨hj, ?_, ?_⟩
  · rw [List.getElem_append_right (Nat.le_add_right _ _), List.getElem_drop]
    simp
  · rw [Nat.add_assoc, List.drop_length_add_append, List.drop_drop, Nat.add_assoc]

theorem attachValues_last (body : List Instruction) (LastInst InsertBefore : Nat)
    (st : DebugifyState) :
    attachValues body LastInst InsertBefore LastInst st = (body, st) := by
  unfold attachValues
  rw [if_pos rfl]

theorem attachValues_void {body : List Instruction} {I InsertBefore LastInst : Nat}
    {st : DebugifyState} {inst : Instruction} (hne : I ≠ LastInst) (hI : body[I]? = some inst)
    (hvoid : inst.isVoidTy = true) :
    attachValues body I InsertBefore LastInst st =
      attachValues body (I + 1) InsertBefore LastInst st := by
  rw [attachValues, if_neg hne]
  split
  · rename_i hnone
    cases hnone.symm.trans hI
  · rename_i inst' hI'
    obtain rfl := Option.some.inj (hI.symm.trans hI')
    rw [dif_pos hvoid]

theorem attachValues_value {body : List Instruction} {I InsertBefore LastInst : Nat}
    {st : DebugifyState} {inst : Instruction} (hne : I ≠ LastInst) (hI : body[I]? = some inst)
    (hvoid : inst.isVoidTy = false) :
    attachValues body I InsertBefore LastInst st =
      attachValues (body.insertIdx (advance inst I InsertBefore) (dbgValue inst.debugLoc))
        (shift (advance inst I InsertBefore) I + 1) (advance inst I InsertBefore + 1)
        (shift (advance inst I InsertBefore) LastInst)
        { st with NextVar := st.NextVar + 1, valueFn := true } := by
  rw [attachValues, if_neg hne]
  split
  · rename_i hnone
    cases hnone.symm.trans hI
  · rename_i inst' hI'
    obtain rfl := Option.some.inj (hI.symm.trans hI')
    rw [dif_neg (by rw [hvoid]; exact Bool.false_ne_true)]

/-- The state once `n` debug values have been attached. -/
def attached (st : DebugifyState) (n : Nat) : DebugifyState :=
  { st with NextVar := st.NextVar + BitVec.ofNat 32 n, valueFn := st.valueFn || decide (0 < n) }

theorem attached_zero (st : DebugifyState) : attached st 0 = st := by
  simp [attached]

theorem attached_succ (st : DebugifyState) (n : Nat) :
    attached { st with NextVar := st.NextVar + 1, valueFn := true } n = attached st (n + 1) := by
  have hadd : st.NextVar + 1#32 + BitVec.ofNat 32 n = st.NextVar + BitVec.ofNat 32 (n + 1) := by
    rw [BitVec.add_assoc, Nat.add_comm n 1, BitVec.ofNat_add]
  simp [attached, hadd]

/-- Behind the PHIs, every instruction gets its debug value directly behind it. -/
theorem attachValues_rest (done mid tail : List Instruction) (InsertBefore : Nat)
    (st : DebugifyState) (hmid : ∀ I ∈ mid, I.isPhi = false ∧ I.isEHPad = false) :
    attachValues (done ++ (mid ++ tail)) done.length InsertBefore (done.length + mid.length) st =
      (done ++ (mid.flatMap withValue ++ tail), attached st (mid.countP (!·.isVoidTy))) := by
  induction mid generalizing done InsertBefore st with
  | nil =>
    rw [List.length_nil, Nat.add_zero, attachValues_last, List.countP_nil, attached_zero]
    rfl
  | cons I mid ih =>
    have hget : (done ++ (I :: mid ++ tail))[done.length]? = some I := by simp
    have hne : done.length ≠ done.length + (I :: mid).length := by simp
    have hrest : ∀ J ∈ mid, J.isPhi = false ∧ J.isEHPad = false := fun J hJ =>
      hmid J (List.mem_cons_of_mem _ hJ)
    by_cases hvoid : I.isVoidTy = true
    · rw [attachValues_void hne hget hvoid]
      have hstep := ih (done ++ [I]) InsertBefore st hrest
      rw [List.length_append, List.length_singleton, List.append_assoc] at hstep
      have hlast : done.length + (I :: mid).length = done.length + 1 + mid.length := by
        rw [List.length_cons]
        omega
      rw [hlast]
      have hwith : withValue I = [I] := if_pos hvoid
      rw [List.flatMap_cons, hwith, List.countP_cons_of_neg (by simp [hvoid])]
      simpa using hstep
    · rw [Bool.not_eq_true] at hvoid
      obtain ⟨hphi, hpad⟩ := hmid I List.mem_cons_self
      have hadvance : advance I done.length InsertBefore = done.length + 1 := by
        rw [advance, hphi, hpad]
        rfl
      have hinsert : (done ++ (I :: mid ++ tail)).insertIdx (done.length + 1)
          (dbgValue I.debugLoc) = done ++ I :: dbgValue I.debugLoc :: (mid ++ tail) := by
        have happend : done ++ (I :: mid ++ tail) = (done ++ [I]) ++ (mid ++ tail) := by simp
        have hlen : done.length + 1 = (done ++ [I]).length := by simp
        rw [happend, hlen, insertIdx_length]
        simp
      have hnext : shift (done.length + 1) done.length = done.length := if_neg (by omega)
      have hlast : shift (done.length + 1) (done.length + (I :: mid).length) =
          done.length + 2 + mid.length := by
        rw [List.length_cons, shift, if_pos (by omega)]
        omega
      rw [attachValues_value hne hget hvoid, hadvance, hinsert, hnext, hlast,
        attachValues_void (by omega) (by simp) (dbgValue_isVoidTy I.debugLoc)]
      have hstep := ih (done ++ [I, dbgValue I.debugLoc]) (done.length + 1 + 1)
        { st with NextVar := st.NextVar + 1, valueFn := true } hrest
      have hwith : withValue I = [I, dbgValue I.debugLoc] :=
        if_neg (by rw [hvoid]; exact Bool.false_ne_true)
      rw [attached_succ] at hstep
      rw [List.flatMap_cons, hwith, List.countP_cons_of_pos (by simp [hvoid])]
      simpa using hstep

/-- At the PHIs, the debug values are inserted behind those that are there already. -/
theorem attachValues_phis (done phis values mid tail : List Instruction) (st : DebugifyState)
    (hphis : ∀ I ∈ phis, I.isPhi = true) (hvalues : ∀ I ∈ values, I.isDbgInfo = true ∧ I.isVoidTy = true)
    (hmid : ∀ I ∈ mid, I.isPhi = false ∧ I.isEHPad = false) :
    attachValues (done ++ (phis ++ (values ++ (mid ++ tail)))) done.length
        (done.length + phis.length + values.length)
        (done.length + phis.length + values.length + mid.length) st =
      (done ++ (phis ++ (values ++ ((phis.filter (!·.isVoidTy)).map fun I => dbgValue I.debugLoc) ++
          (mid.flatMap withValue ++ tail))),
        attached st ((phis ++ mid).countP (!·.isVoidTy))) := by
  induction phis generalizing done values st with
  | nil =>
    -- The debug values are instructions without a value, which the loop passes.
    have hrest : ∀ I ∈ values ++ mid, I.isPhi = false ∧ I.isEHPad = false := by
      intro I hI
      rcases List.mem_append.mp hI with hI | hI
      · have hdbg := (hvalues I hI).1
        rw [Inst.isDbgInfo, beq_iff_eq] at hdbg
        exact ⟨by rw [Inst.isPhi, hdbg]; rfl, by rw [Inst.isEHPad, hdbg]; rfl⟩
      · exact hmid I hI
    have hself : values.flatMap withValue = values := by
      have hsingle : ∀ I ∈ values, withValue I = [I] := fun I hI => if_pos (hvalues I hI).2
      rw [List.flatMap_congr hsingle, List.flatMap_singleton']
    have hnone : values.countP (!·.isVoidTy) = 0 := by
      rw [List.countP_eq_zero]
      intro I hI
      simp [(hvalues I hI).2]
    have hstep := attachValues_rest done (values ++ mid) tail
      (done.length + ([] : List Instruction).length + values.length) st hrest
    rw [List.flatMap_append, hself, List.countP_append, hnone, Nat.zero_add] at hstep
    simpa [Nat.add_assoc] using hstep
  | cons I phis ih =>
    have hget : (done ++ (I :: phis ++ (values ++ (mid ++ tail))))[done.length]? = some I := by simp
    have hne : done.length ≠ done.length + (I :: phis).length + values.length + mid.length := by
      rw [List.length_cons]
      omega
    have hrest : ∀ J ∈ phis, J.isPhi = true := fun J hJ => hphis J (List.mem_cons_of_mem _ hJ)
    by_cases hvoid : I.isVoidTy = true
    · rw [attachValues_void hne hget hvoid]
      have hstep := ih (done ++ [I]) values st hrest hvalues
      have hlen : done.length + 1 + phis.length = done.length + (I :: phis).length := by
        rw [List.length_cons]
        omega
      rw [List.length_append, List.length_singleton, hlen] at hstep
      have hcount : (I :: phis ++ mid).countP (!·.isVoidTy) = (phis ++ mid).countP (!·.isVoidTy) :=
        List.countP_cons_of_neg (by simp [hvoid])
      rw [List.filter_cons_of_neg (by simp [hvoid]), hcount]
      simpa using hstep
    · rw [Bool.not_eq_true] at hvoid
      have hadvance : ∀ InsertBefore, advance I done.length InsertBefore = InsertBefore := by
        intro InsertBefore
        rw [advance, hphis I List.mem_cons_self]
        rfl
      have hinsert : (done ++ (I :: phis ++ (values ++ (mid ++ tail)))).insertIdx
            (done.length + (I :: phis).length + values.length) (dbgValue I.debugLoc) =
          done ++ (I :: phis ++ (values ++ dbgValue I.debugLoc :: (mid ++ tail))) := by
        have happend : done ++ (I :: phis ++ (values ++ (mid ++ tail))) =
            (done ++ (I :: phis) ++ values) ++ (mid ++ tail) := by simp
        have hlen : done.length + (I :: phis).length + values.length =
            (done ++ (I :: phis) ++ values).length := by
          rw [List.length_append, List.length_append]
        rw [happend, hlen, insertIdx_length]
        simp
      have hnext : shift (done.length + (I :: phis).length + values.length) done.length =
          done.length := by
        refine if_neg ?_
        rw [List.length_cons]
        omega
      have hlast : shift (done.length + (I :: phis).length + values.length)
            (done.length + (I :: phis).length + values.length + mid.length) =
          done.length + (I :: phis).length + values.length + mid.length + 1 :=
        if_pos (Nat.le_add_right _ _)
      rw [attachValues_value hne hget hvoid, hadvance, hinsert, hnext, hlast]
      have hstep := ih (done ++ [I]) (values ++ [dbgValue I.debugLoc])
        { st with NextVar := st.NextVar + 1, valueFn := true } hrest (by
          intro J hJ
          rcases List.mem_append.mp hJ with hJ | hJ
          · exact hvalues J hJ
          · obtain rfl := List.mem_singleton.mp hJ
            exact ⟨rfl, rfl⟩)
      have hlen : (done ++ [I]).length + phis.length + (values ++ [dbgValue I.debugLoc]).length =
          done.length + (I :: phis).length + values.length + 1 := by
        simp only [List.length_append, List.length_cons, List.length_nil]
        omega
      have hend : done.length + (I :: phis).length + values.length + 1 + mid.length =
          done.length + (I :: phis).length + values.length + mid.length + 1 := by omega
      rw [attached_succ, hlen, hend] at hstep
      have hcount : (I :: phis ++ mid).countP (!·.isVoidTy) =
          (phis ++ mid).countP (!·.isVoidTy) + 1 :=
        List.countP_cons_of_pos (by simp [hvoid])
      rw [List.filter_cons_of_pos (by simp [hvoid]), hcount]
      simpa using hstep

/-! ## The terminating instruction -/

section Terminating

variable {BB : BasicBlock}

theorem reverse_eq_cons {α : Type} {l rest : List α} {a : α} (h : l.reverse = a :: rest) :
    l = rest.reverse ++ [a] := by
  rw [← List.reverse_reverse l, h, List.reverse_cons]

theorem getElem?_of_reverse {α : Type} {l rest : List α} {a : α} (h : l.reverse = a :: rest) :
    l[rest.length]? = some a := by
  rw [reverse_eq_cons h, ← List.length_reverse, List.getElem?_concat_length]

/-- The instruction that is found is a `musttail` call of the block. -/
theorem of_getTerminatingMustTailCall {i : Nat} (h : BB.getTerminatingMustTailCall = some i) :
    ∃ I, BB.body[i]? = some I ∧ I.isMustTailCall = true := by
  unfold BasicBlock.getTerminatingMustTailCall at h
  split at h
  · rename_i prev rest hterm hrev
    split_ifs at h with htail
    obtain rfl := Option.some.inj h
    exact ⟨prev, getElem?_of_reverse hrev, htail⟩
  · rename_i v prev rest hterm hrev
    split at h
    · split at h
      · rename_i operand call rest' hop
        split_ifs at h with hcall
        obtain rfl := Option.some.inj h
        rw [Bool.and_eq_true] at hcall
        refine ⟨call, ?_, hcall.2⟩
        rw [reverse_eq_cons hrev, List.reverse_cons, List.append_assoc, ← List.length_reverse,
          List.getElem?_append_right (Nat.le_refl _), Nat.sub_self]
        rfl
      · split_ifs at h with htail
        obtain rfl := Option.some.inj h
        exact ⟨prev, getElem?_of_reverse hrev, htail⟩
    · exact nomatch h
  · exact nomatch h

theorem of_getTerminatingDeoptimizeCall {i : Nat}
    (h : BB.getTerminatingDeoptimizeCall = some i) :
    ∃ I, BB.body[i]? = some I ∧ I.isDeoptimizeCall = true := by
  unfold BasicBlock.getTerminatingDeoptimizeCall at h
  split at h
  · rename_i v prev rest hterm hrev
    split_ifs at h with hdeopt
    obtain rfl := Option.some.inj h
    exact ⟨prev, getElem?_of_reverse hrev, hdeopt⟩
  · exact nomatch h

/-- The `musttail` call of a well-shaped block is found. -/
theorem getTerminatingMustTailCall_of_endsInRet {i : Nat} (hi : i < BB.body.length)
    (htail : BB.body[i].isMustTailCall = true) (htyped : TailTyped BB)
    (hends : EndsInRet BB.body[i] (BB.body.drop (i + 1)) BB.term = true) :
    BB.getTerminatingMustTailCall = some i := by
  have hsplit : BB.body = BB.body.take i ++ BB.body[i] :: BB.body.drop (i + 1) := by
    rw [← List.drop_eq_getElem_cons hi, List.take_append_drop]
  have hlen : (BB.body.take i).reverse.length = i := by
    rw [List.length_reverse, List.length_take, Nat.min_eq_left hi.le]
  have hmem : BB.body[i] ∈ BB.body := List.getElem_mem hi
  generalize BB.body[i] = call at *
  generalize BB.body.drop (i + 1) = rest at *
  have hnotCast : ∀ operand, call.op ≠ .bitCast operand := by
    intro operand hop
    rw [Inst.isMustTailCall, hop] at htail
    exact Bool.false_ne_true htail
  cases rest with
  | nil =>
    have hrev : BB.body.reverse = call :: (BB.body.take i).reverse := by
      conv_lhs => rw [hsplit]
      rw [List.reverse_append]
      rfl
    rw [EndsInRet, Inst.returns] at hends
    unfold BasicBlock.getTerminatingMustTailCall
    rw [hrev]
    split at hends
    · rename_i hterm
      rw [hterm]
      simp only [htail, if_true, hlen]
    · rename_i v hterm
      rw [decide_eq_true_eq] at hends
      rw [hterm]
      simp only [← hends, if_true]
      split
      · rename_i hop _
        exact absurd hop (hnotCast _)
      · rw [if_pos htail, hlen]
    · exact absurd hends Bool.false_ne_true
  | cons cast rest =>
    cases rest with
    | nil =>
      have hrev : BB.body.reverse = cast :: call :: (BB.body.take i).reverse := by
        conv_lhs => rw [hsplit]
        rw [List.reverse_append]
        rfl
      rw [EndsInRet, Bool.and_eq_true, Inst.castsValue, Inst.returns] at hends
      obtain ⟨hcast, hreturns⟩ := hends
      unfold BasicBlock.getTerminatingMustTailCall
      rw [hrev]
      split at hcast
      · rename_i operand hop
        rw [decide_eq_true_eq] at hcast
        split at hreturns
        · rename_i hterm
          -- The call has no value that the bitcast could be of.
          have hnone := htyped hterm call hmem htail
          rw [Inst.asValue, hnone] at hcast
          cases hcast
        · rename_i v hterm
          rw [decide_eq_true_eq] at hreturns
          rw [hterm]
          simp only [← hreturns, if_true, hop, ← hcast, htail, decide_true, Bool.and_self, hlen]
        · exact absurd hreturns Bool.false_ne_true
      · exact absurd hcast Bool.false_ne_true
    | cons J rest => exact absurd hends Bool.false_ne_true

end Terminating

/-! ## Blocks -/

section Blocks

variable {BB : BasicBlock}

/-- In a block that is no EH pad, no instruction is one. -/
theorem isEHPad_of_mem (hBB : BB.WellShaped) (hpad : BB.isEHPad = false) {I : Instruction}
    (hI : I ∈ BB.body) : I.isEHPad = false := by
  obtain ⟨i, hi, rfl⟩ := List.getElem_of_mem hI
  by_contra hIpad
  rw [Bool.not_eq_false] at hIpad
  have hfirst := hBB.pad i hi hIpad
  have hdrop : BB.body.dropWhile Inst.isPhi = BB.body[i] :: BB.body.drop (i + 1) := by
    have happend := List.takeWhile_append_dropWhile (p := Inst.isPhi) (l := BB.body)
    have hsplit := List.take_append_drop i BB.body
    have htake : BB.body.take i = BB.body.takeWhile Inst.isPhi := by
      rw [hfirst, BasicBlock.take_getFirstNonPHI]
    rw [← List.drop_eq_getElem_cons hi]
    rw [htake] at hsplit
    exact List.append_cancel_left (happend.trans hsplit.symm)
  rw [BasicBlock.isEHPad, hdrop] at hpad
  exact Bool.false_ne_true (hpad.symm.trans hIpad)

theorem isCatchSwitch_of_not_isEHPad (hBB : BB.WellShaped) (hpad : BB.isEHPad = false) :
    BB.term.isCatchSwitch = false := by
  by_contra hswitch
  rw [Bool.not_eq_false] at hswitch
  have hall := hBB.catchSwitch hswitch
  have hdrop : BB.body.dropWhile Inst.isPhi = [] := by
    have happend := List.takeWhile_append_dropWhile (p := Inst.isPhi) (l := BB.body)
    have hlen := congrArg List.length happend
    rw [List.length_append] at hlen
    rw [BasicBlock.getFirstNonPHI] at hall
    rw [← List.length_eq_zero_iff]
    omega
  rw [BasicBlock.isEHPad, hdrop] at hpad
  rw [Inst.isCatchSwitch] at hswitch
  split at hswitch
  · rename_i hop
    simp only [hop] at hpad
    exact Bool.false_ne_true hpad.symm
  · exact Bool.false_ne_true hswitch

/-- The terminating instruction is behind the PHIs. -/
theorem findTerminatingInstruction_bounds (BB : BasicBlock) :
    BB.getFirstNonPHI ≤ findTerminatingInstruction BB ∧
      findTerminatingInstruction BB ≤ BB.body.length := by
  have hbound : ∀ {i : Nat} {I : Instruction}, BB.body[i]? = some I → I.isPhi = false →
      BB.getFirstNonPHI ≤ i ∧ i ≤ BB.body.length := by
    intro i I hI hphi
    obtain ⟨hlt, hget⟩ := List.getElem?_eq_some_iff.mp hI
    refine ⟨?_, hlt.le⟩
    by_contra hle
    have hmem : I ∈ BB.body.take BB.getFirstNonPHI := by
      rw [List.mem_take_iff_getElem]
      exact ⟨i, by omega, hget⟩
    rw [BasicBlock.isPhi_of_mem_take hmem] at hphi
    exact Bool.false_ne_true hphi.symm
  have hcall : ∀ {I : Instruction}, (I.isMustTailCall = true ∨ I.isDeoptimizeCall = true) →
      I.isPhi = false := by
    intro I hI
    rw [Inst.isMustTailCall, Inst.isDeoptimizeCall] at hI
    cases hop : I.op with
    | phi => simp [hop] at hI
    | _ => simp [Inst.isPhi, hop]
  unfold findTerminatingInstruction
  split
  · rename_i i hi
    obtain ⟨I, hI, htail⟩ := of_getTerminatingMustTailCall hi
    exact hbound hI (hcall (.inl htail))
  · split
    · rename_i i hi
      obtain ⟨I, hI, hdeopt⟩ := of_getTerminatingDeoptimizeCall hi
      exact hbound hI (hcall (.inr hdeopt))
    · exact ⟨BB.getFirstNonPHI_le, le_rfl⟩

theorem take_findTerminatingInstruction (BB : BasicBlock) :
    BB.body.take (findTerminatingInstruction BB) = BB.body.take BB.getFirstNonPHI ++
      (BB.body.take (findTerminatingInstruction BB)).drop BB.getFirstNonPHI := by
  obtain ⟨hle, -⟩ := findTerminatingInstruction_bounds BB
  conv_lhs => rw [← List.take_append_drop BB.getFirstNonPHI
    (BB.body.take (findTerminatingInstruction BB)), List.take_take, Nat.min_eq_left hle]

/-- The loop as a whole. -/
theorem attachValues_eq (hBB : BB.WellShaped) (hpad : BB.isEHPad = false) (st : DebugifyState) :
    attachValues BB.body 0 BB.getFirstInsertionPt (findTerminatingInstruction BB) st =
      (withValues BB, attached st (valueCount BB)) := by
  obtain ⟨hle, hlast⟩ := findTerminatingInstruction_bounds BB
  have hpt : BB.getFirstInsertionPt = BB.getFirstNonPHI :=
    if_neg (by rw [hpad]; exact Bool.false_ne_true)
  have htake := take_findTerminatingInstruction BB
  have hbody : BB.body = [] ++ (BB.body.take BB.getFirstNonPHI ++ ([] ++
      ((BB.body.take (findTerminatingInstruction BB)).drop BB.getFirstNonPHI ++
        BB.body.drop (findTerminatingInstruction BB)))) := by
    rw [List.nil_append, List.nil_append, ← List.append_assoc, ← htake, List.take_append_drop]
  have hphis : (BB.body.take BB.getFirstNonPHI).length = BB.getFirstNonPHI := by
    rw [List.length_take, Nat.min_eq_left BB.getFirstNonPHI_le]
  have hmid : ((BB.body.take (findTerminatingInstruction BB)).drop BB.getFirstNonPHI).length =
      findTerminatingInstruction BB - BB.getFirstNonPHI := by
    rw [List.length_drop, List.length_take, Nat.min_eq_left hlast]
  have hstep := attachValues_phis [] (BB.body.take BB.getFirstNonPHI) []
    ((BB.body.take (findTerminatingInstruction BB)).drop BB.getFirstNonPHI)
    (BB.body.drop (findTerminatingInstruction BB)) st (fun I hI => BasicBlock.isPhi_of_mem_take hI)
    (fun I hI => absurd hI List.not_mem_nil) fun I hI => by
      refine ⟨BasicBlock.isPhi_of_mem_drop hBB ?_, isEHPad_of_mem hBB hpad ?_⟩
      · rw [List.drop_take] at hI
        exact List.mem_of_mem_take hI
      · exact List.mem_of_mem_take (List.mem_of_mem_drop hI)
  rw [← hbody, hphis, hmid, List.length_nil, Nat.zero_add, Nat.add_zero,
    Nat.add_sub_cancel' hle, ← htake] at hstep
  rw [hpt, hstep, withValues, valueCount, if_neg (by rw [hpad]; exact Bool.false_ne_true)]
  simp

/-- What stands behind the PHIs and before the terminating instruction. -/
def between (BB : BasicBlock) : List Instruction :=
  ((BB.body.take BB.getFirstNonPHI).filter (!·.isVoidTy)).map (fun I => dbgValue I.debugLoc) ++
    ((BB.body.take (findTerminatingInstruction BB)).drop BB.getFirstNonPHI).flatMap withValue

theorem withValues_eq (BB : BasicBlock) :
    withValues BB = BB.body.take BB.getFirstNonPHI ++ (between BB ++
      BB.body.drop (findTerminatingInstruction BB)) := by
  simp only [withValues, between, List.append_assoc]

/-- Between them, there are the instructions of the block and the debug values. -/
theorem mem_between {I : Instruction} (hI : I ∈ between BB) :
    I ∈ (BB.body.take (findTerminatingInstruction BB)).drop BB.getFirstNonPHI ∨
      I.isDbgInfo = true := by
  rcases List.mem_append.mp hI with hI | hI
  · obtain ⟨J, -, rfl⟩ := List.mem_map.mp hI
    exact .inr rfl
  · obtain ⟨J, hJ, hI⟩ := List.mem_flatMap.mp hI
    unfold withValue at hI
    split_ifs at hI
    · rw [List.mem_singleton.mp hI]
      exact .inl hJ
    · rcases List.mem_pair.mp hI with rfl | rfl
      · exact .inl hJ
      · exact .inr rfl

/-- A property of instructions that debug values do not have. -/
theorem between_of_body {P : Instruction → Bool} (hP : ∀ I : Instruction, I.isDbgInfo = true →
      P I = false)
    (hbody : ∀ I ∈ (BB.body.take (findTerminatingInstruction BB)).drop BB.getFirstNonPHI,
      P I = false) : ∀ I ∈ between BB, P I = false := by
  intro I hI
  rcases mem_between hI with hI | hI
  · exact hbody I hI
  · exact hP I hI

theorem not_of_isDbgInfo {I : Instruction} (hI : I.isDbgInfo = true) :
    I.isPhi = false ∧ I.isEHPad = false ∧ I.isMustTailCall = false := by
  rw [Inst.isDbgInfo, beq_iff_eq] at hI
  simp [Inst.isPhi, Inst.isEHPad, Inst.isMustTailCall, hI]

/-- No `musttail` call stands before the terminating instruction. -/
theorem isMustTailCall_of_mem_take (hBB : BB.WellShaped) (htyped : TailTyped BB) {I : Instruction}
    (hI : I ∈ BB.body.take (findTerminatingInstruction BB)) : I.isMustTailCall = false := by
  obtain ⟨i, hi, rfl⟩ := List.mem_take_iff_getElem.mp hI
  by_contra htail
  rw [Bool.not_eq_false] at htail
  have hlt : i < BB.body.length := by omega
  have hfound := getTerminatingMustTailCall_of_endsInRet hlt htail htyped (hBB.tail i hlt htail)
  rw [findTerminatingInstruction, hfound] at hi
  simp at hi

/-- Attaching the debug values keeps the shape of a block. -/
theorem withValues_wellShaped (hBB : BB.WellShaped) (htyped : TailTyped BB)
    (hpad : BB.isEHPad = false) : ({ BB with body := withValues BB } : BasicBlock).WellShaped := by
  obtain ⟨hle, hlast⟩ := findTerminatingInstruction_bounds BB
  have hphis : (BB.body.take BB.getFirstNonPHI).length = BB.getFirstNonPHI := by
    rw [List.length_take, Nat.min_eq_left BB.getFirstNonPHI_le]
  -- Behind the PHIs there is no PHI.
  have hnotPhi : ∀ I ∈ between BB ++ BB.body.drop (findTerminatingInstruction BB),
      I.isPhi = false := by
    intro I hI
    rcases List.mem_append.mp hI with hI | hI
    · refine between_of_body (fun J hJ => (not_of_isDbgInfo hJ).1) (fun J hJ => ?_) I hI
      rw [List.drop_take] at hJ
      exact BasicBlock.isPhi_of_mem_drop hBB (List.mem_of_mem_take hJ)
    · refine BasicBlock.isPhi_of_mem_drop hBB ?_
      rw [← Nat.add_sub_cancel' hle, ← List.drop_drop] at hI
      exact List.mem_of_mem_drop hI
  have hfirst : ({ BB with body := withValues BB } : BasicBlock).getFirstNonPHI =
      BB.getFirstNonPHI := by
    have hnone : (between BB ++ BB.body.drop (findTerminatingInstruction BB)).takeWhile Inst.isPhi =
        [] := by
      rw [List.takeWhile_eq_nil_iff]
      intro hlen hphi
      have hnot := hnotPhi _ (List.getElem_mem hlen)
      exact Bool.false_ne_true (hnot.symm.trans hphi)
    rw [BasicBlock.getFirstNonPHI, withValues_eq,
      List.takeWhile_append_of_pos fun I hI => BasicBlock.isPhi_of_mem_take hI, hnone, List.append_nil, hphis]
  have hmem : ∀ I ∈ withValues BB, I ∈ BB.body ∨ I.isDbgInfo = true := by
    intro I hI
    rw [withValues_eq] at hI
    rcases List.mem_append.mp hI with hI | hI
    · exact .inl (List.mem_of_mem_take hI)
    · rcases List.mem_append.mp hI with hI | hI
      · exact (mem_between hI).imp_left fun h => List.mem_of_mem_take (List.mem_of_mem_drop h)
      · exact .inl (List.mem_of_mem_drop hI)
  constructor
  · intro i hi htail
    -- The call stands in the part that has not changed.
    have hbefore : ∀ I ∈ BB.body.take BB.getFirstNonPHI ++ between BB, I.isMustTailCall = false := by
      intro I hI
      rcases List.mem_append.mp hI with hI | hI
      · refine isMustTailCall_of_mem_take hBB htyped ?_
        rw [← Nat.min_eq_left hle, ← List.take_take] at hI
        exact List.mem_of_mem_take hI
      · exact between_of_body (fun J hJ => (not_of_isDbgInfo hJ).2.2)
          (fun J hJ => isMustTailCall_of_mem_take hBB htyped (List.mem_of_mem_drop hJ)) I hI
    have hbody : withValues BB = (BB.body.take BB.getFirstNonPHI ++ between BB) ++
        BB.body.drop (findTerminatingInstruction BB) := by
      rw [withValues_eq, List.append_assoc]
    simp only [hbody] at hi htail ⊢
    rcases Nat.lt_or_ge i (BB.body.take BB.getFirstNonPHI ++ between BB).length with hlt | hge
    · rw [List.getElem_append_left hlt, hbefore _ (List.getElem_mem hlt)] at htail
      exact absurd htail Bool.false_ne_true
    · obtain ⟨j, rfl⟩ := Nat.exists_eq_add_of_le hge
      obtain ⟨hj, hget, hdrop⟩ := getElem_append_drop hi
      rw [hget] at htail ⊢
      rw [hdrop]
      exact hBB.tail _ hj htail
  · intro i hi hIpad
    have hnot : (withValues BB)[i].isEHPad = false := by
      rcases hmem _ (List.getElem_mem hi) with hbody | hdbg
      · exact isEHPad_of_mem hBB hpad hbody
      · exact (not_of_isDbgInfo hdbg).2.1
    exact absurd (hnot.symm.trans hIpad) Bool.false_ne_true
  · intro hswitch
    exact absurd ((isCatchSwitch_of_not_isEHPad hBB hpad).symm.trans hswitch) Bool.false_ne_true
  · intro i hi hphi
    rw [hfirst]
    by_contra hge
    simp only [withValues_eq] at hi hphi
    rw [List.getElem_append_right (by omega), hnotPhi _ (List.getElem_mem _)] at hphi
    exact Bool.false_ne_true hphi

end Blocks

/-! ## Locations do not matter -/

section Unlocated

variable {BB : BasicBlock}

theorem getTerminatingMustTailCall_unlocated (BB : BasicBlock) :
    BB.unlocated.getTerminatingMustTailCall = BB.getTerminatingMustTailCall := by
  have hrev : BB.unlocated.body.reverse = BB.body.reverse.map (·.setDebugLoc none) :=
    List.map_reverse.symm
  have hterm : BB.unlocated.term.op = BB.term.op := rfl
  unfold BasicBlock.getTerminatingMustTailCall
  rw [hrev, hterm]
  split
  · rename_i prev rest hop hbody
    obtain ⟨prev', rest', hbody', rfl, rfl⟩ := List.map_eq_cons_iff.mp hbody
    rw [hop, hbody', List.length_map]
    rfl
  · rename_i v prev rest hop hbody
    obtain ⟨prev', rest', hbody', rfl, rfl⟩ := List.map_eq_cons_iff.mp hbody
    have hprev : (prev'.setDebugLoc none).op = prev'.op := rfl
    rw [hop, hbody', hprev, List.length_map]
    dsimp only
    cases prev'.op with
    | bitCast operand =>
      cases rest' with
      | nil => rfl
      | cons call rest'' =>
        rw [List.map_cons]
        simp only [List.length_map]
        rfl
    | _ => rfl
  · rename_i hret hretValue
    split
    · rename_i prev rest hop hbody
      exact absurd (by rw [hbody]; rfl) (hret _ _ hop)
    · rename_i v prev rest hop hbody
      exact absurd (by rw [hbody]; rfl) (hretValue v _ _ hop)
    · rfl

theorem getTerminatingDeoptimizeCall_unlocated (BB : BasicBlock) :
    BB.unlocated.getTerminatingDeoptimizeCall = BB.getTerminatingDeoptimizeCall := by
  have hrev : BB.unlocated.body.reverse = BB.body.reverse.map (·.setDebugLoc none) :=
    List.map_reverse.symm
  have hterm : BB.unlocated.term.op = BB.term.op := rfl
  unfold BasicBlock.getTerminatingDeoptimizeCall
  rw [hrev, hterm]
  cases BB.body.reverse with
  | nil => cases BB.term.op <;> rfl
  | cons prev rest =>
    cases BB.term.op with
    | ret v =>
      rw [List.map_cons]
      simp only [List.length_map]
      rfl
    | _ => rfl

theorem findTerminatingInstruction_unlocated (BB : BasicBlock) :
    findTerminatingInstruction BB.unlocated = findTerminatingInstruction BB := by
  have hlen : BB.unlocated.body.length = BB.body.length := List.length_map _
  unfold findTerminatingInstruction
  rw [getTerminatingMustTailCall_unlocated, getTerminatingDeoptimizeCall_unlocated, hlen]

theorem valueCount_unlocated (BB : BasicBlock) : valueCount BB.unlocated = valueCount BB := by
  have hcount : (BB.unlocated.body.take (findTerminatingInstruction BB)).countP (!·.isVoidTy) =
      (BB.body.take (findTerminatingInstruction BB)).countP (!·.isVoidTy) := by
    rw [BasicBlock.unlocated, ← List.map_take, List.countP_map]
    rfl
  rw [valueCount, valueCount, BasicBlock.isEHPad_unlocated, findTerminatingInstruction_unlocated, hcount]

theorem tailTyped_unlocated_iff : TailTyped BB.unlocated ↔ TailTyped BB := by
  constructor
  · intro h hret I hI htail
    exact h hret (I.setDebugLoc none) (List.mem_map_of_mem hI) htail
  · intro h hret I hI htail
    obtain ⟨J, hJ, rfl⟩ := List.mem_map.mp hI
    exact h hret J hJ htail

end Unlocated

/-! ## A visited block -/

section VisitBlock

variable {BB : BasicBlock} (st : DebugifyState)

theorem wellShaped_locate_iff : (locate st BB).WellShaped ↔ BB.WellShaped := by
  rw [← BasicBlock.wellShaped_unlocated_iff, unlocated_locate, BasicBlock.wellShaped_unlocated_iff]

theorem valueCount_locate (BB : BasicBlock) : valueCount (locate st BB) = valueCount BB := by
  rw [← valueCount_unlocated, unlocated_locate, valueCount_unlocated]

theorem visitBlock_eq (hBB : BB.WellShaped) :
    visitBlock st BB = (visited (locate st BB), attached (located st BB) (valueCount BB)) := by
  have hshape := (wellShaped_locate_iff st).mpr hBB
  by_cases hpad : (locate st BB).isEHPad = true
  · have hzero : valueCount BB = 0 := by
      rw [← valueCount_locate st, valueCount, if_pos hpad]
    rw [visitBlock_of_isEHPad hpad, visited, if_pos hpad, hzero, attached_zero]
  · have hle := (locate st BB).getFirstNonPHI_le
    have hpt : (locate st BB).getFirstInsertionPt = (locate st BB).getFirstNonPHI := if_neg hpad
    have hinsert : (locate st BB).getFirstInsertionPt ≠ (locate st BB).body.length + 1 := by
      omega
    rw [visitBlock_of_not_isEHPad hpad, decide_eq_true hinsert, Bool.and_true]
    rw [Bool.not_eq_true] at hpad
    rw [attachValues_eq hshape hpad, visited, hpad, if_neg Bool.false_ne_true, valueCount_locate]

theorem visited_wellShaped (hBB : BB.WellShaped) (htyped : TailTyped BB) :
    (visited BB).WellShaped := by
  unfold visited
  by_cases hpad : BB.isEHPad = true
  · rwa [if_pos hpad]
  · rw [if_neg hpad]
    rw [Bool.not_eq_true] at hpad
    exact withValues_wellShaped hBB htyped hpad

theorem countP_withValue (l : List Instruction) :
    (l.flatMap withValue).countP Inst.isDbgInfo =
      l.countP Inst.isDbgInfo + l.countP (!·.isVoidTy) := by
  induction l with
  | nil => rfl
  | cons I l ih =>
    have hvalue : (dbgValue I.debugLoc).isDbgInfo = true := rfl
    rw [List.flatMap_cons, List.countP_append, ih, List.countP_cons, List.countP_cons]
    by_cases hvoid : I.isVoidTy = true
    · have hwith : withValue I = [I] := if_pos hvoid
      rw [hwith, List.countP_singleton, if_neg (c := (!I.isVoidTy) = true) (by simp [hvoid])]
      omega
    · have hwith : withValue I = [I, dbgValue I.debugLoc] := if_neg hvoid
      rw [hwith, List.countP_cons, List.countP_singleton, if_pos hvalue,
        if_pos (c := (!I.isVoidTy) = true) (by simpa using hvoid)]
      omega

/-- The debug values are the debug intrinsics that are new. -/
theorem countP_visited (BB : BasicBlock) :
    (visited BB).body.countP Inst.isDbgInfo =
      BB.body.countP Inst.isDbgInfo + valueCount BB := by
  unfold visited valueCount
  by_cases hpad : BB.isEHPad = true
  · rw [if_pos hpad, if_pos hpad, Nat.add_zero]
  · have hphis : (((BB.body.take BB.getFirstNonPHI).filter (!·.isVoidTy)).map
        fun I => dbgValue I.debugLoc).countP Inst.isDbgInfo =
        (BB.body.take BB.getFirstNonPHI).countP (!·.isVoidTy) := by
      have hall : (Inst.isDbgInfo ∘ fun I : Instruction => dbgValue I.debugLoc) = fun _ => true := rfl
      rw [List.countP_map, hall, List.countP_true, List.countP_eq_length_filter]
    have hbody : BB.body.countP Inst.isDbgInfo =
        (BB.body.take BB.getFirstNonPHI).countP Inst.isDbgInfo +
          ((BB.body.take (findTerminatingInstruction BB)).drop BB.getFirstNonPHI).countP
            Inst.isDbgInfo + (BB.body.drop (findTerminatingInstruction BB)).countP
              Inst.isDbgInfo := by
      conv_lhs => rw [← List.take_append_drop (findTerminatingInstruction BB) BB.body,
        take_findTerminatingInstruction, List.countP_append, List.countP_append]
    rw [if_neg hpad, if_neg hpad, take_findTerminatingInstruction, List.countP_append]
    simp only [withValues, List.countP_append]
    rw [hphis, countP_withValue, hbody]
    omega

end VisitBlock

end Gpscat.Debugify

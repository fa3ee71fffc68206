import Gpscat.LLVM.DebugErasure
import Gpscat.LLVM.Proofs.IRProofs
import Gpscat.Lib.Proofs.SimulationProofs

/-!
# Erasing debug info keeps the runs

An instruction that is no debug intrinsic, and a terminator, take the same steps in both modules, at
positions that differ by the number of intrinsics before them. A step of an intrinsic changes the
position only, and not the erased one.
-/

namespace LLVM

open Simulation ListEdit

/-! ## Blocks -/

section Blocks

variable {BB BB' : BasicBlock} {k : Nat}

/-- Two instructions that differ at most in their debug locations. -/
def Inst.SameButLoc {ω : Type} (a b : Inst ω) : Prop := a.setDebugLoc none = b.setDebugLoc none

theorem Inst.SameButLoc.op {ω : Type} {a b : Inst ω} (h : a.SameButLoc b) : a.op = b.op := by
  simp only [SameButLoc, setDebugLoc, Inst.mk.injEq] at h
  exact h.1

theorem Inst.SameButLoc.result {ω : Type} {a b : Inst ω} (h : a.SameButLoc b) :
    a.result = b.result := by
  simp only [SameButLoc, setDebugLoc, Inst.mk.injEq] at h
  exact h.2.1

theorem Inst.SameButLoc.exec_iff {D : Type} {n : Nat} {I : Interp D n} (hI : I.IgnoresDebugInfo)
    {a b : Instruction} (h : a.SameButLoc b) (d d' : D) : I.exec a d d' ↔ I.exec b d d' := by
  rw [← hI.location a none, ← hI.location b none, h]

/-- Where the two blocks agree. -/
theorem sameButLoc_getElem? (h : BB'.unlocated = BB.eraseDbgInfo.unlocated) (j : Nat) :
    BB'.body[j]?.map (·.setDebugLoc none) =
      (BB.body.filter (!·.isDbgInfo))[j]?.map (·.setDebugLoc none) := by
  rw [← List.getElem?_map, ← List.getElem?_map]
  exact congrArg (fun B : BasicBlock => B.body[j]?) h

theorem sameButLoc_term (h : BB'.unlocated = BB.eraseDbgInfo.unlocated) :
    BB'.term.SameButLoc BB.term :=
  congrArg BasicBlock.term h

theorem length_erased (h : BB'.unlocated = BB.eraseDbgInfo.unlocated) :
    BB'.body.length = (BB.body.filter (!·.isDbgInfo)).length := by
  have := congrArg (fun B : BasicBlock => B.body.length) h
  simpa [BasicBlock.unlocated, BasicBlock.eraseDbgInfo] using this

/-- An instruction that stays is at its new position. -/
theorem getElem?_erased (h : BB'.unlocated = BB.eraseDbgInfo.unlocated) {inst : Instruction}
    (hk : BB.body[k]? = some inst) (hdbg : inst.isDbgInfo = false) :
    ∃ inst', BB'.body[rank (!·.isDbgInfo) BB.body k]? = some inst' ∧ inst'.SameButLoc inst := by
  have hsame := sameButLoc_getElem? h (rank (!·.isDbgInfo) BB.body k)
  rw [getElem?_filter_rank hk (by simpa using hdbg), Option.map_some, Option.map_eq_some_iff] at hsame
  exact hsame

/-- What a position that is no debug intrinsic corresponds to: the same instruction, or the end. -/
theorem erased_cases (h : BB'.unlocated = BB.eraseDbgInfo.unlocated) (hle : k ≤ BB.body.length)
    (hdbg : BB.body[k]?.any Inst.isDbgInfo = false) :
    (∃ inst inst', BB.body[k]? = some inst ∧ inst.isDbgInfo = false ∧
      BB'.body[rank (!·.isDbgInfo) BB.body k]? = some inst' ∧ inst'.SameButLoc inst) ∨
    (k = BB.body.length ∧ rank (!·.isDbgInfo) BB.body k = BB'.body.length) := by
  cases hk : BB.body[k]? with
  | none =>
    right
    have hge := List.getElem?_eq_none_iff.mp hk
    exact ⟨le_antisymm hle hge, by rw [rank_of_length_le hge, length_erased h]⟩
  | some inst =>
    left
    rw [hk, Option.any_some] at hdbg
    obtain ⟨inst', hk', hsame⟩ := getElem?_erased h hk hdbg
    exact ⟨inst, inst', rfl, hdbg, hk', hsame⟩

end Blocks

/-! ## Positions -/

section Steps

variable {M N : Module} {D : Type} {n : Nat} {I : Interp D n} {tick : Option FunctionPtr}
  {p : BasicBlockPtr} {BB BB' : BasicBlock} {k : Nat} {inst : Instruction}

theorem erasedIndex_of_blockAt (hBB : M.blockAt p = some BB) (k : Nat) :
    M.erasedIndex p k = rank (!·.isDbgInfo) BB.body k := by
  rw [Module.erasedIndex, hBB]

@[simp] theorem erasedIndex_zero (M : Module) (p : BasicBlockPtr) : M.erasedIndex p 0 = 0 := by
  unfold Module.erasedIndex
  split
  · exact rank_zero _ _
  · rfl

theorem erasedIndex_succ_of_dbg (hBB : M.blockAt p = some BB) (hk : BB.body[k]? = some inst)
    (hdbg : inst.isDbgInfo = true) : M.erasedIndex p (k + 1) = M.erasedIndex p k := by
  rw [erasedIndex_of_blockAt hBB, erasedIndex_of_blockAt hBB, rank_succ hk, hdbg]
  rfl

theorem erasedIndex_succ (hBB : M.blockAt p = some BB) (hk : BB.body[k]? = some inst)
    (hdbg : inst.isDbgInfo = false) : M.erasedIndex p (k + 1) = M.erasedIndex p k + 1 := by
  rw [erasedIndex_of_blockAt hBB, erasedIndex_of_blockAt hBB, rank_succ hk, hdbg]
  rfl

theorem atDbgInfo_code (hBB : M.blockAt p = some BB) (k : Nat) (cs : List Cont) (d : D) :
    M.atDbgInfo ⟨.code p k, cs, d⟩ = BB.body[k]?.any Inst.isDbgInfo := by
  show ((M.blockAt p).bind (·.body[k]?)).any Inst.isDbgInfo = _
  rw [hBB, Option.bind_some]

/-- A call of a function is no debug intrinsic. -/
theorem isDbgInfo_of_call {callee : Value} {args : List Value} {kind : CallKind}
    (hop : inst.op = .call callee args kind) : inst.isDbgInfo = false := by
  rw [Inst.isDbgInfo, hop]
  rfl

namespace Module

theorem ErasesDebugInfo.blockAt (h : M.ErasesDebugInfo N) (hBB : M.blockAt p = some BB) :
    ∃ BB', N.blockAt p = some BB' ∧ BB'.unlocated = BB.eraseDbgInfo.unlocated := by
  have hp := h p
  rwa [hBB, Option.map_some, Option.map_eq_some_iff] at hp

theorem ErasesDebugInfo.exists_blockAt (h : M.ErasesDebugInfo N) (hBB' : N.blockAt p = some BB') :
    ∃ BB, M.blockAt p = some BB ∧ BB'.unlocated = BB.eraseDbgInfo.unlocated := by
  have hp := (h p).symm
  rw [hBB', Option.map_some, Option.map_eq_some_iff] at hp
  obtain ⟨BB, hBB, heq⟩ := hp
  exact ⟨BB, hBB, heq.symm⟩

theorem ErasesDebugInfo.entry (h : M.ErasesDebugInfo N) (f : Option FunctionPtr) :
    N.entry f = M.entry f := by
  cases f with
  | none => rfl
  | some f =>
    have hsome := congrArg Option.isSome (h ⟨f, 0⟩)
    rw [Option.isSome_map, Option.isSome_map] at hsome
    rw [Module.entry, Module.entry, hsome]

/-- The operands stay, so the erased module calls no other functions. -/
theorem ErasesDebugInfo.closed (h : M.ErasesDebugInfo N)
    (hlen : M.functions.length ≤ N.functions.length) (hM : M.Closed) : N.Closed := by
  have hmono : ∀ v : Value, v.InRange M.functions.length → v.InRange N.functions.length := by
    intro v hv
    cases v with
    | function f => exact Nat.lt_of_lt_of_le hv hlen
    | inst _ => trivial
    | constInt _ _ => trivial
    | other _ => trivial
  rintro ⟨p, BB'⟩ hBB'
  obtain ⟨BB, hBB, hsame⟩ := h.exists_blockAt (N.mem_blockPtrs.mp hBB')
  obtain ⟨hbody, hterm⟩ := hM (p, BB) (M.mem_blockPtrs.mpr hBB)
  constructor
  · intro inst' hinst' v hv
    obtain ⟨j, hj⟩ := List.getElem?_of_mem hinst'
    have hget := sameButLoc_getElem? hsame j
    rw [hj, Option.map_some, eq_comm, Option.map_eq_some_iff] at hget
    obtain ⟨inst, hinst, heq⟩ := hget
    have hop : inst.op = inst'.op := Inst.SameButLoc.op heq
    have hmem := List.mem_of_mem_filter (List.mem_of_getElem? hinst)
    exact hmono v (hbody inst hmem v (hop ▸ hv))
  · intro v hv
    rw [(sameButLoc_term hsame).op] at hv
    exact hmono v (hterm v hv)

theorem eraseCtrl_entry (M : Module) (f : Option FunctionPtr) :
    M.eraseCtrl (M.entry f) = M.entry f := by
  cases f with
  | none => rfl
  | some f =>
    rw [Module.entry]
    split
    · rw [eraseCtrl, erasedIndex_zero]
    · rfl

/-- Control is at a position of the module. -/
def PlacedCtrl (M : Module) : Ctrl → Prop
  | .code p k => ∀ BB, M.blockAt p = some BB → k ≤ BB.body.length
  | _ => True

/-- What waits for a call waits at an instruction that is no debug intrinsic. -/
def PlacedCont (M : Module) : Cont → Prop
  | .call p k _ => ∃ BB inst, M.blockAt p = some BB ∧ BB.body[k]? = some inst ∧
    inst.isDbgInfo = false
  | _ => True

/-- The configurations that a run reaches. -/
structure Placed (M : Module) (s : Config D) : Prop where
  ctrl : M.PlacedCtrl s.ctrl
  conts : ∀ c ∈ s.conts, M.PlacedCont c

theorem ErasesDebugInfo.eraseConfig_start (h : M.ErasesDebugInfo N) (f : FunctionPtr) (d : D) :
    M.eraseConfig (M.start f d) = N.start f d := by
  simp only [eraseConfig, start, eraseCtrl_entry, h.entry, List.map_nil]

theorem placedCtrl_zero (M : Module) (p : BasicBlockPtr) : M.PlacedCtrl (.code p 0) :=
  fun _ _ => Nat.zero_le _

theorem placedCtrl_succ (hBB : M.blockAt p = some BB) (hk : BB.body[k]? = some inst) :
    M.PlacedCtrl (.code p (k + 1)) := by
  intro BB₁ hBB₁
  obtain rfl := Option.some.inj (hBB.symm.trans hBB₁)
  exact (List.getElem?_eq_some_iff.mp hk).1

theorem placedCtrl_entry (M : Module) (f : Option FunctionPtr) : M.PlacedCtrl (M.entry f) := by
  cases f with
  | none => trivial
  | some f =>
    rw [Module.entry]
    split
    · exact placedCtrl_zero M _
    · trivial

theorem placed_start (M : Module) (f : FunctionPtr) (d : D) : M.Placed (M.start f d) where
  ctrl := placedCtrl_entry M (some f)
  conts _ h := absurd h List.not_mem_nil

theorem Placed.push {s : Config D} (hs : M.Placed s) {c : Cont} (hc : M.PlacedCont c) :
    ∀ c' ∈ c :: s.conts, M.PlacedCont c' :=
  List.forall_mem_cons.mpr ⟨hc, hs.conts⟩

theorem Placed.pop {ctrl : Ctrl} {c : Cont} {cs : List Cont} {d : D}
    (hs : M.Placed ⟨ctrl, c :: cs, d⟩) : M.PlacedCont c ∧ ∀ c' ∈ cs, M.PlacedCont c' :=
  List.forall_mem_cons.mp hs.conts

end Module

/-! ## Steps -/

/-- What a step leaves: nothing when a debug intrinsic takes it, and otherwise a step of the erased
module. -/
theorem step_erased (hI : I.IgnoresDebugInfo) (h : M.ErasesDebugInfo N) {s t : Config D} {l : Label}
    (hs : M.Placed s) (hstep : Step M I tick s l t) :
    M.Placed t ∧
      if M.atDbgInfo s then M.eraseConfig t = M.eraseConfig s
      else Step N I tick (M.eraseConfig s) l (M.eraseConfig t) := by
  -- At a terminator, and outside of blocks, control is at no debug intrinsic.
  have hend : ∀ {p : BasicBlockPtr} {BB : BasicBlock} {k : Nat} {cs : List Cont} {d : D},
      M.blockAt p = some BB → k = BB.body.length → M.atDbgInfo ⟨.code p k, cs, d⟩ = false := by
    intro p BB k cs d hBB hk
    rw [atDbgInfo_code hBB, List.getElem?_eq_none (Nat.le_of_eq hk.symm)]
    rfl
  have hrank : ∀ {p : BasicBlockPtr} {BB BB' : BasicBlock} {k : Nat}, M.blockAt p = some BB →
      BB'.unlocated = BB.eraseDbgInfo.unlocated → k = BB.body.length →
      M.erasedIndex p k = BB'.body.length := by
    intro p BB BB' k hBB hsame hk
    rw [erasedIndex_of_blockAt hBB, rank_of_length_le (Nat.le_of_eq hk.symm), length_erased hsame]
  cases hstep with
  | @exec p BB k inst cs d d' hBB hk hop hd =>
    refine ⟨⟨Module.placedCtrl_succ hBB hk, hs.conts⟩, ?_⟩
    rw [atDbgInfo_code hBB, hk, Option.any_some]
    by_cases hdbg : inst.isDbgInfo = true
    · obtain rfl := (hI.intrinsic inst hdbg d d').mp hd
      rw [if_pos hdbg]
      simp only [Module.eraseConfig, Module.eraseCtrl]
      rw [erasedIndex_succ_of_dbg hBB hk hdbg]
    · rw [if_neg hdbg]
      rw [Bool.not_eq_true] at hdbg
      obtain ⟨BB', hBB', hsame⟩ := h.blockAt hBB
      obtain ⟨inst', hk', hinst⟩ := getElem?_erased hsame hk hdbg
      rw [← erasedIndex_of_blockAt hBB] at hk'
      simp only [Module.eraseConfig, Module.eraseCtrl]
      rw [erasedIndex_succ hBB hk hdbg]
      exact .exec hBB' hk' (by rw [hinst.op, hop]) ((hinst.exec_iff hI d d').mpr hd)
  | @tick p BB k inst cs d f c hBB hk hop hf =>
    have hdbg := isDbgInfo_of_call hop
    refine ⟨⟨Module.placedCtrl_succ hBB hk, hs.conts⟩, ?_⟩
    rw [atDbgInfo_code hBB, hk, Option.any_some, hdbg, if_neg Bool.false_ne_true]
    obtain ⟨BB', hBB', hsame⟩ := h.blockAt hBB
    obtain ⟨inst', hk', hinst⟩ := getElem?_erased hsame hk hdbg
    rw [← erasedIndex_of_blockAt hBB] at hk'
    simp only [Module.eraseConfig, Module.eraseCtrl]
    rw [erasedIndex_succ hBB hk hdbg]
    exact .tick hBB' hk' (by rw [hinst.op, hop]) hf
  | @call p BB k inst cs d d' callee args kind target hBB hk hop htarget hd =>
    have hdbg := isDbgInfo_of_call hop
    refine ⟨⟨Module.placedCtrl_entry M _, hs.push ⟨BB, inst, hBB, hk, hdbg⟩⟩, ?_⟩
    rw [atDbgInfo_code hBB, hk, Option.any_some, hdbg, if_neg Bool.false_ne_true]
    obtain ⟨BB', hBB', hsame⟩ := h.blockAt hBB
    obtain ⟨inst', hk', hinst⟩ := getElem?_erased hsame hk hdbg
    rw [← erasedIndex_of_blockAt hBB] at hk'
    simp only [Module.eraseConfig, List.map_cons, Module.eraseCtrl_entry]
    rw [← h.entry, ← hinst.result]
    exact .call hBB' hk' (by rw [hinst.op, hop]) htarget hd
  | @branch p BB k b cs d d' hBB hk hb hd =>
    refine ⟨⟨Module.placedCtrl_zero M _, hs.conts⟩, ?_⟩
    rw [hend hBB hk, if_neg Bool.false_ne_true]
    obtain ⟨BB', hBB', hsame⟩ := h.blockAt hBB
    have hterm := (sameButLoc_term hsame).op
    simp only [Module.eraseConfig, Module.eraseCtrl, erasedIndex_zero]
    exact .branch hBB' (hrank hBB hsame hk) (hterm ▸ hb) (hterm ▸ hd)
  | @invoke p BB k cs d d' callee args normal unwind target hBB hk hop htarget hd =>
    refine ⟨⟨Module.placedCtrl_entry M _, hs.push trivial⟩, ?_⟩
    rw [hend hBB hk, if_neg Bool.false_ne_true]
    obtain ⟨BB', hBB', hsame⟩ := h.blockAt hBB
    have hterm := sameButLoc_term hsame
    simp only [Module.eraseConfig, List.map_cons, Module.eraseCtrl_entry]
    rw [← h.entry, ← hterm.result]
    exact .invoke hBB' (hrank hBB hsame hk) (hterm.op.trans hop) htarget hd
  | @ret p BB k cs d d' v hBB hk hop hd =>
    refine ⟨⟨trivial, hs.conts⟩, ?_⟩
    rw [hend hBB hk, if_neg Bool.false_ne_true]
    obtain ⟨BB', hBB', hsame⟩ := h.blockAt hBB
    have hterm := (sameButLoc_term hsame).op
    exact .ret hBB' (hrank hBB hsame hk) (hterm.trans hop) (hterm ▸ hd)
  | @unwind p BB k cs d d' hBB hk hop hd =>
    refine ⟨⟨trivial, hs.conts⟩, ?_⟩
    rw [hend hBB hk, if_neg Bool.false_ne_true]
    obtain ⟨BB', hBB', hsame⟩ := h.blockAt hBB
    have hterm := (sameButLoc_term hsame).op
    exact .unwind hBB' (hrank hBB hsame hk) (by rw [hterm, hop]) (hterm ▸ hd)
  | @returnCall p k r cs d d' hd =>
    obtain ⟨⟨BB, inst, hBB, hk, hdbg⟩, hcs⟩ := hs.pop
    refine ⟨⟨Module.placedCtrl_succ hBB hk, hcs⟩, ?_⟩
    simp only [Module.eraseConfig, Module.eraseCtrl]
    rw [erasedIndex_succ hBB hk hdbg]
    exact .returnCall hd
  | returnInvoke hd =>
    refine ⟨⟨Module.placedCtrl_zero M _, hs.pop.2⟩, ?_⟩
    simp only [Module.eraseConfig, Module.eraseCtrl, erasedIndex_zero]
    exact .returnInvoke hd
  | returnOutside => exact ⟨⟨trivial, hs.pop.2⟩, .returnOutside⟩
  | unwindCall => exact ⟨⟨trivial, hs.pop.2⟩, .unwindCall⟩
  | unwindInvoke =>
    refine ⟨⟨Module.placedCtrl_zero M _, hs.pop.2⟩, ?_⟩
    simp only [Module.eraseConfig, Module.eraseCtrl, erasedIndex_zero]
    exact .unwindInvoke
  | unwindOutside => exact ⟨⟨trivial, hs.pop.2⟩, .unwindOutside⟩
  | outside hd => exact ⟨⟨trivial, hs.conts⟩, .outside hd⟩
  | callback hd =>
    refine ⟨⟨Module.placedCtrl_entry M _, hs.push trivial⟩, ?_⟩
    simp only [Module.eraseConfig, List.map_cons, Module.eraseCtrl_entry]
    rw [← h.entry]
    exact .callback hd
  | outsideReturn => exact ⟨⟨trivial, hs.conts⟩, .outsideReturn⟩
  | outsideUnwind => exact ⟨⟨trivial, hs.conts⟩, .outsideUnwind⟩

/-- Away from the debug intrinsics, every step of the erased module is taken. -/
theorem step_followed (hI : I.IgnoresDebugInfo) (h : M.ErasesDebugInfo N) {s u : Config D}
    {l : Label} (hs : M.Placed s) (hdbg : M.atDbgInfo s = false)
    (hstep : Step N I tick (M.eraseConfig s) l u) :
    ∃ t, Step M I tick s l t ∧ M.eraseConfig t = u := by
  -- It is enough to find the step: where it leads is known.
  have hfind : ∀ {t : Config D}, Step M I tick s l t → M.eraseConfig t = u →
      ∃ t, Step M I tick s l t ∧ M.eraseConfig t = u := fun ht heq => ⟨_, ht, heq⟩
  obtain ⟨ctrl, conts, d⟩ := s
  cases ctrl with
  | code p k =>
    simp only [Module.eraseConfig, Module.eraseCtrl] at hstep
    have hblock : ∀ {BB' : BasicBlock}, N.blockAt p = some BB' →
        ∃ BB, M.blockAt p = some BB ∧ BB'.unlocated = BB.eraseDbgInfo.unlocated ∧
          ((∃ inst inst', BB.body[k]? = some inst ∧ inst.isDbgInfo = false ∧
              BB'.body[M.erasedIndex p k]? = some inst' ∧ inst'.SameButLoc inst) ∨
            (k = BB.body.length ∧ M.erasedIndex p k = BB'.body.length)) := by
      intro BB' hBB'
      obtain ⟨BB, hBB, hsame⟩ := h.exists_blockAt hBB'
      rw [atDbgInfo_code hBB] at hdbg
      rw [erasedIndex_of_blockAt hBB]
      exact ⟨BB, hBB, hsame, erased_cases hsame (hs.ctrl BB hBB) hdbg⟩
    have hinst : ∀ {BB' : BasicBlock} {inst' : Instruction}, N.blockAt p = some BB' →
        BB'.body[M.erasedIndex p k]? = some inst' →
        ∃ BB inst, M.blockAt p = some BB ∧ BB.body[k]? = some inst ∧ inst.isDbgInfo = false ∧
          inst'.SameButLoc inst := by
      intro BB' inst' hBB' hk'
      obtain ⟨BB, hBB, -, ⟨inst, inst₁, hk, hnot, hk₁, hsame⟩ | ⟨-, hend⟩⟩ := hblock hBB'
      · obtain rfl := Option.some.inj (hk'.symm.trans hk₁)
        exact ⟨BB, inst, hBB, hk, hnot, hsame⟩
      · rw [hend, List.getElem?_eq_none (Nat.le_refl _)] at hk'
        exact nomatch hk'
    have hterm : ∀ {BB' : BasicBlock}, N.blockAt p = some BB' →
        M.erasedIndex p k = BB'.body.length →
        ∃ BB, M.blockAt p = some BB ∧ k = BB.body.length ∧ BB'.term.SameButLoc BB.term := by
      intro BB' hBB' hk'
      obtain ⟨BB, hBB, hsame, ⟨inst, inst₁, -, -, hk₁, -⟩ | ⟨hend, -⟩⟩ := hblock hBB'
      · rw [hk', List.getElem?_eq_none (Nat.le_refl _)] at hk₁
        exact nomatch hk₁
      · exact ⟨BB, hBB, hend, sameButLoc_term hsame⟩
    cases hstep with
    | exec hBB' hk' hop hd =>
      obtain ⟨BB, inst, hBB, hk, hnot, hsame⟩ := hinst hBB' hk'
      refine hfind (.exec hBB hk (by rw [← hsame.op, hop]) ((hsame.exec_iff hI _ _).mp hd)) ?_
      simp only [Module.eraseConfig, Module.eraseCtrl, erasedIndex_succ hBB hk hnot]
    | tick hBB' hk' hop hf =>
      obtain ⟨BB, inst, hBB, hk, hnot, hsame⟩ := hinst hBB' hk'
      refine hfind (.tick hBB hk (hsame.op.symm.trans hop) hf) ?_
      simp only [Module.eraseConfig, Module.eraseCtrl, erasedIndex_succ hBB hk hnot]
    | call hBB' hk' hop htarget hd =>
      obtain ⟨BB, inst, hBB, hk, hnot, hsame⟩ := hinst hBB' hk'
      refine hfind (.call hBB hk (hsame.op.symm.trans hop) htarget hd) ?_
      simp only [Module.eraseConfig, List.map_cons, Module.eraseCtrl_entry]
      rw [h.entry, hsame.result]
      rfl
    | branch hBB' hk' hb hd =>
      obtain ⟨BB, hBB, hk, hsame⟩ := hterm hBB' hk'
      rw [hsame.op] at hb hd
      refine hfind (.branch hBB hk hb hd) ?_
      simp only [Module.eraseConfig, Module.eraseCtrl, erasedIndex_zero]
    | invoke hBB' hk' hop htarget hd =>
      obtain ⟨BB, hBB, hk, hsame⟩ := hterm hBB' hk'
      refine hfind (.invoke hBB hk (hsame.op.symm.trans hop) htarget hd) ?_
      simp only [Module.eraseConfig, List.map_cons, Module.eraseCtrl_entry]
      rw [h.entry, hsame.result]
      rfl
    | ret hBB' hk' hop hd =>
      obtain ⟨BB, hBB, hk, hsame⟩ := hterm hBB' hk'
      rw [hsame.op] at hop hd
      exact hfind (.ret hBB hk hop hd) rfl
    | unwind hBB' hk' hop hd =>
      obtain ⟨BB, hBB, hk, hsame⟩ := hterm hBB' hk'
      rw [hsame.op] at hop hd
      exact hfind (.unwind hBB hk hop hd) rfl
  | outside =>
    simp only [Module.eraseConfig, Module.eraseCtrl] at hstep
    cases hstep with
    | outside hd => exact hfind (.outside hd) rfl
    | callback hd =>
      refine hfind (.callback hd) ?_
      simp only [Module.eraseConfig, List.map_cons, Module.eraseCtrl_entry]
      rw [h.entry]
      rfl
    | outsideReturn => exact hfind .outsideReturn rfl
    | outsideUnwind => exact hfind .outsideUnwind rfl
  | returning =>
    cases conts with
    | nil => cases hstep
    | cons c cs =>
      cases c with
      | call p k r =>
        obtain ⟨⟨BB, inst, hBB, hk, hnot⟩, -⟩ := hs.pop
        simp only [Module.eraseConfig, Module.eraseCtrl, List.map_cons, Module.eraseCont] at hstep
        cases hstep with
        | returnCall hd =>
          refine hfind (.returnCall hd) ?_
          simp only [Module.eraseConfig, Module.eraseCtrl, erasedIndex_succ hBB hk hnot]
      | invoke normal unwind r =>
        simp only [Module.eraseConfig, Module.eraseCtrl, List.map_cons, Module.eraseCont] at hstep
        cases hstep with
        | returnInvoke hd =>
          refine hfind (.returnInvoke hd) ?_
          simp only [Module.eraseConfig, Module.eraseCtrl, erasedIndex_zero]
      | callback =>
        simp only [Module.eraseConfig, Module.eraseCtrl, List.map_cons, Module.eraseCont] at hstep
        cases hstep with
        | returnOutside => exact hfind .returnOutside rfl
  | unwinding =>
    cases conts with
    | nil => cases hstep
    | cons c cs =>
      cases c with
      | call p k r =>
        simp only [Module.eraseConfig, Module.eraseCtrl, List.map_cons, Module.eraseCont] at hstep
        cases hstep with
        | unwindCall => exact hfind .unwindCall rfl
      | invoke normal unwind r =>
        simp only [Module.eraseConfig, Module.eraseCtrl, List.map_cons, Module.eraseCont] at hstep
        cases hstep with
        | unwindInvoke =>
          refine hfind .unwindInvoke ?_
          simp only [Module.eraseConfig, Module.eraseCtrl, erasedIndex_zero]
      | callback =>
        simp only [Module.eraseConfig, Module.eraseCtrl, List.map_cons, Module.eraseCont] at hstep
        cases hstep with
        | unwindOutside => exact hfind .unwindOutside rfl

/-! ## Runs -/

theorem forward_erased (hI : I.IgnoresDebugInfo) (h : M.ErasesDebugInfo N) :
    Forward (Step N I tick) (MarkedStep M I tick) M.eraseConfig id M.Placed := by
  rintro s l t hs ⟨l', hstep, rfl⟩
  obtain ⟨ht, herased⟩ := step_erased hI h hs hstep
  refine ⟨ht, ?_⟩
  by_cases hdbg : M.atDbgInfo s = true
  · rw [if_pos hdbg] at herased ⊢
    exact herased
  · rw [if_neg hdbg] at herased ⊢
    exact herased

/-- At a debug intrinsic there is a step to the next position. -/
theorem step_of_atDbgInfo (hI : I.IgnoresDebugInfo) {s : Config D} (hdbg : M.atDbgInfo s = true) :
    ∃ p k BB, M.blockAt p = some BB ∧ k < BB.body.length ∧ s = ⟨.code p k, s.conts, s.data⟩ ∧
      ∀ tick, Step M I tick s .act ⟨.code p (k + 1), s.conts, s.data⟩ := by
  obtain ⟨ctrl, conts, d⟩ := s
  cases ctrl with
  | code p k =>
    have hany : ((M.blockAt p).bind (·.body[k]?)).any Inst.isDbgInfo = true := hdbg
    obtain ⟨inst, hbind, hinst⟩ := (Option.any_eq_true _ _).mp hany
    obtain ⟨BB, hBB, hk⟩ := Option.bind_eq_some_iff.mp hbind
    refine ⟨p, k, BB, hBB, (List.getElem?_eq_some_iff.mp hk).1, rfl, fun tick => ?_⟩
    refine .exec hBB hk ?_ ((hI.intrinsic inst hinst d d).mpr rfl)
    rw [Inst.isDbgInfo, beq_iff_eq] at hinst
    rw [hinst]
    rfl
  | outside => exact nomatch hdbg
  | returning => exact nomatch hdbg
  | unwinding => exact nomatch hdbg

/-- The debug intrinsics that control is at are passed. -/
theorem run_to_instruction (tick : Option FunctionPtr) (hI : I.IgnoresDebugInfo)
    (h : M.ErasesDebugInfo N) {s : Config D} (hs : M.Placed s) :
    ∃ r t, Run (MarkedStep M I tick) s r t ∧ seen M.eraseConfig id r = [] ∧
      M.eraseConfig t = M.eraseConfig s ∧ M.Placed t ∧ M.atDbgInfo t = false := by
  -- By induction on the number of instructions of the block that are left.
  generalize hm : (match s.ctrl with
    | .code p k => M.bodyLength p - k
    | _ => 0) = m
  induction m generalizing s with
  | zero =>
    refine ⟨[], s, .nil s, rfl, rfl, hs, ?_⟩
    by_contra hdbg
    rw [Bool.not_eq_false] at hdbg
    obtain ⟨p, k, BB, hBB, hlt, heq, -⟩ := step_of_atDbgInfo hI hdbg
    rw [heq] at hm
    simp only [Module.bodyLength, hBB, Option.map_some, Option.getD_some] at hm
    omega
  | succ m ih =>
    by_cases hdbg : M.atDbgInfo s = true
    · obtain ⟨p, k, BB, hBB, hlt, heq, hstep⟩ := step_of_atDbgInfo hI hdbg
      obtain ⟨ht, herased⟩ := step_erased hI h hs (hstep tick)
      rw [if_pos hdbg] at herased
      have hleft : M.bodyLength p - (k + 1) = m := by
        rw [heq] at hm
        simp only at hm
        omega
      obtain ⟨r, t, hrun, hseen, herase, hplaced, hnot⟩ := ih ht hleft
      refine ⟨(none, _) :: r, t, .cons ⟨.act, hstep tick, by rw [if_pos hdbg]⟩ hrun, ?_,
        herase.trans herased, hplaced, hnot⟩
      rw [seen_cons_none rfl, hseen]
    · rw [Bool.not_eq_true] at hdbg
      exact ⟨[], s, .nil s, rfl, rfl, hs, hdbg⟩

theorem backward_erased (hI : I.IgnoresDebugInfo) (h : M.ErasesDebugInfo N) :
    Backward (Step N I tick) (MarkedStep M I tick) M.eraseConfig id
      (fun s => M.Placed s ∧ M.atDbgInfo s = false) := by
  rintro s l u ⟨hs, hdbg⟩ hstep
  obtain ⟨t, ht, rfl⟩ := step_followed hI h hs hdbg hstep
  obtain ⟨hplaced, -⟩ := step_erased hI h hs ht
  obtain ⟨r, t', hrun, hseen, herase, hinv⟩ := run_to_instruction tick hI h hplaced
  refine ⟨some l, t, r, t', ⟨l, ht, ?_⟩, rfl, hrun, hseen, rfl, herase, hinv⟩
  rw [hdbg, if_neg Bool.false_ne_true]

/-- Without the debug intrinsics, the module has the same runs. -/
theorem Module.ErasesDebugInfo.keepsRuns (h : M.ErasesDebugInfo N) (hI : I.IgnoresDebugInfo) :
    KeepsRuns M N I tick where
  erased f d r s hr := by
    have hrun := ((forward_erased hI h).run (Module.placed_start M f d) hr).1
    rwa [h.eraseConfig_start] at hrun
  followed f d r s hr := by
    obtain ⟨r₀, s₀, hrun₀, hseen₀, herase₀, hinv⟩ :=
      run_to_instruction tick hI h (Module.placed_start M f d)
    rw [← h.eraseConfig_start, ← herase₀] at hr
    obtain ⟨r₁, s₁, hrun₁, hseen₁, herase₁, -, hend⟩ := (backward_erased hI h).run hinv hr
    refine ⟨r₀ ++ r₁, s₁, hrun₀.append hrun₁, ?_, herase₁, hend⟩
    rw [seen_append, hseen₀, hseen₁, List.nil_append]

/-! ## Charges -/

variable (charge : BasicBlockPtr → Int)

theorem chargeAt_code (hBB : M.blockAt p = some BB) (k : Nat) (cs : List Cont) (d : D) :
    M.chargeAt charge ⟨.code p k, cs, d⟩ = if k = BB.body.length then charge p else 0 := by
  have hreached : M.reached ⟨.code p k, cs, d⟩ = if k = BB.body.length then some p else none := by
    show (M.blockAt p).bind (fun BB => if k = BB.body.length then some p else none) = _
    rw [hBB, Option.bind_some]
  rw [Module.chargeAt, hreached]
  by_cases hk : k = BB.body.length
  · rw [if_pos hk, if_pos hk]
  · rw [if_neg hk, if_neg hk]

/-- Nothing is charged at a debug intrinsic. -/
theorem chargeAt_of_atDbgInfo (hI : I.IgnoresDebugInfo) {s : Config D}
    (hdbg : M.atDbgInfo s = true) : M.chargeAt charge s = 0 := by
  obtain ⟨p, k, BB, hBB, hlt, heq, -⟩ := step_of_atDbgInfo hI hdbg
  rw [heq, chargeAt_code charge hBB, if_neg hlt.ne]

/-- Away from the debug intrinsics, both modules charge the same. -/
theorem chargeAt_eraseConfig (h : M.ErasesDebugInfo N) {s : Config D} (hs : M.Placed s)
    (hdbg : M.atDbgInfo s = false) :
    N.chargeAt charge (M.eraseConfig s) = M.chargeAt charge s := by
  obtain ⟨ctrl, conts, d⟩ := s
  cases ctrl with
  | code p k =>
    simp only [Module.eraseConfig, Module.eraseCtrl]
    cases hBB : M.blockAt p with
    | none =>
      have hBB' : N.blockAt p = none := by
        have hp := h p
        rwa [hBB, Option.map_none, Option.map_eq_none_iff] at hp
      simp only [Module.chargeAt, Module.reached, hBB, hBB', Option.bind_none]
    | some BB =>
      obtain ⟨BB', hBB', hsame⟩ := h.blockAt hBB
      rw [atDbgInfo_code hBB] at hdbg
      rw [chargeAt_code charge hBB, chargeAt_code charge hBB', erasedIndex_of_blockAt hBB]
      rcases erased_cases hsame (hs.ctrl BB hBB) hdbg with
        ⟨inst, inst', hk, -, hk', -⟩ | ⟨hend, hend'⟩
      · rw [if_neg (List.getElem?_eq_some_iff.mp hk).1.ne,
          if_neg (List.getElem?_eq_some_iff.mp hk').1.ne]
      · rw [if_pos hend, if_pos hend']
  | outside => rfl
  | returning => rfl
  | unwinding => rfl

/-- The two modules charge the same along a run, up to what is charged early when only debug
intrinsics are left before the terminator. -/
theorem chargeAlong_seen (hI : I.IgnoresDebugInfo) (h : M.ErasesDebugInfo N) {s t : Config D}
    {r : List (Option Label × Config D)} (hs : M.Placed s)
    (hr : Run (MarkedStep M I tick) s r t) :
    N.chargeAlong charge (M.eraseConfig s) (seen M.eraseConfig id r) =
      M.chargeAlong charge s r +
        (N.chargeAt charge (M.eraseConfig t) - M.chargeAt charge t) := by
  have hseen : ∀ r : List (Option Label × Config D),
      ((seen M.eraseConfig id r).map fun x => N.chargeAt charge x.2).sum =
        (r.map fun x => if x.1.isSome then N.chargeAt charge (M.eraseConfig x.2) else 0).sum := by
    intro r
    induction r with
    | nil => rfl
    | cons x r ih =>
      obtain ⟨l, u⟩ := x
      cases l with
      | none =>
        rw [seen_cons_none rfl]
        simp [ih]
      | some l =>
        have hl : (id (some l) : Option Label) = some l := rfl
        rw [seen_cons_some hl]
        simp [ih]
  have hsum := Run.sum_eq (fun x => M.chargeAt charge x.2)
    (fun x => if x.1.isSome then N.chargeAt charge (M.eraseConfig x.2) else 0)
    (fun u => N.chargeAt charge (M.eraseConfig u) - M.chargeAt charge u) M.Placed ?_ hs hr
  · simp only [Module.chargeAlong, hseen]
    omega
  · intro u l u' hu hstep
    obtain ⟨hu', -⟩ := forward_erased hI h u l u' hu hstep
    refine ⟨hu', ?_⟩
    obtain ⟨l', hl', rfl⟩ := hstep
    obtain ⟨-, herased⟩ := step_erased hI h hu hl'
    by_cases hdbg : M.atDbgInfo u = true
    · rw [if_pos hdbg] at herased
      have hzero := chargeAt_of_atDbgInfo charge hI hdbg
      simp only [hdbg, if_true, Option.isSome_none, Bool.false_eq_true, if_false, herased]
      omega
    · rw [Bool.not_eq_true] at hdbg
      have hsame := chargeAt_eraseConfig charge h hu hdbg
      simp only [hdbg, Bool.false_eq_true, if_false, Option.isSome_some, if_true]
      omega

end Steps

end LLVM

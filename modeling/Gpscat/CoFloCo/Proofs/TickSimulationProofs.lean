import Gpscat.CoFloCo.Proofs.TickProofs
import Gpscat.Lib.Proofs.SimulationProofs

/-!
# Runs of the instrumented module

A step inside a block, before its terminator, and a step outside of blocks is the same in both
modules. At the terminator the positions differ by the inserted call, and the call itself is the one
step that is only taken by the instrumented module. With these facts the step conditions of the
simulation, and the bookkeeping of the counter, are checked once, and lifted to runs.
-/

namespace Gpscat.CoFloCoWrapper

open Cpp LLVM Simulation

/-- `M'` is `M` with the calls inserted, as far as blocks are concerned. -/
def Instrumented (M M' : Module) (blockCostMap : BlockCostMapType) : Prop :=
  ∀ p, M'.blockAt p = (M.blockAt p).map (insertTick M.functions.length blockCostMap p)

/-! ## The inserted call -/

section InsertTick

variable {f : FunctionPtr} {costs : BlockCostMapType} {p : BasicBlockPtr} {BB : BasicBlock}

@[simp] theorem insertTick_term : (insertTick f costs p BB).term = BB.term := by
  unfold insertTick
  split <;> rfl

theorem insertTick_body :
    (insertTick f costs p BB).body = BB.body ++ ((costs.lookup p).map (tickCall f)).toList := by
  unfold insertTick
  split
  · rename_i cost h
    rw [h]
    rfl
  · rename_i h
    rw [h]
    exact (List.append_nil _).symm

theorem insertTick_length_of_some {cost : CostTy} (h : costs.lookup p = some cost) :
    (insertTick f costs p BB).body.length = BB.body.length + 1 := by
  rw [insertTick_body, h, List.length_append]
  rfl

theorem insertTick_length_of_none (h : costs.lookup p = none) :
    (insertTick f costs p BB).body.length = BB.body.length := by
  rw [insertTick_body, h]
  exact congrArg _ (List.append_nil _)

theorem insertTick_getElem_of_lt {k : Nat} (h : k < BB.body.length) :
    (insertTick f costs p BB).body[k]? = BB.body[k]? := by
  rw [insertTick_body, List.getElem?_append_left h]

theorem insertTick_getElem_length {cost : CostTy} (h : costs.lookup p = some cost) :
    (insertTick f costs p BB).body[BB.body.length]? = some (tickCall f cost) := by
  rw [insertTick_body, h, List.getElem?_append_right (Nat.le_refl _), Nat.sub_self]
  rfl

end InsertTick

theorem bodyLength_of_blockAt {M : Module} {p : BasicBlockPtr} {BB : BasicBlock}
    (h : M.blockAt p = some BB) : M.bodyLength p = BB.body.length := by
  rw [Module.bodyLength, h]
  rfl

theorem bodyLength_of_none {M : Module} {p : BasicBlockPtr} (h : M.blockAt p = none) :
    M.bodyLength p = 0 := by
  rw [Module.bodyLength, h]
  rfl

/-! ## Corresponding steps -/

section Steps

variable {M M' : Module} {costs : BlockCostMapType} {D : Type} {I : Interp D M.functions.length}

theorem Instrumented.blockAt_eq_some (h : Instrumented M M' costs) {p : BasicBlockPtr}
    {BB' : BasicBlock} (hBB : M'.blockAt p = some BB') :
    ∃ BB, M.blockAt p = some BB ∧ BB' = insertTick M.functions.length costs p BB := by
  rw [h p] at hBB
  obtain ⟨BB, hat, rfl⟩ := Option.map_eq_some_iff.mp hBB
  exact ⟨BB, hat, rfl⟩

theorem Instrumented.blockAt (h : Instrumented M M' costs) {p : BasicBlockPtr} {BB : BasicBlock}
    (hBB : M.blockAt p = some BB) :
    M'.blockAt p = some (insertTick M.functions.length costs p BB) := by
  rw [h p, hBB]
  rfl

theorem Instrumented.entry (h : Instrumented M M' costs) (f : Option FunctionPtr) :
    M'.entry f = M.entry f := by
  cases f with
  | none => rfl
  | some f =>
    rw [Module.entry, Module.entry, h]
    cases M.blockAt ⟨f, 0⟩ <;> rfl

theorem Instrumented.bodyLength_le (h : Instrumented M M' costs) (p : BasicBlockPtr) :
    M.bodyLength p ≤ M'.bodyLength p := by
  cases hBB : M.blockAt p with
  | none => rw [bodyLength_of_none hBB]; exact Nat.zero_le _
  | some BB =>
    rw [bodyLength_of_blockAt hBB, bodyLength_of_blockAt (h.blockAt hBB), insertTick_body,
      List.length_append]
    exact Nat.le_add_right _ _

/-- The new function is not the target of a call that the module has. -/
theorem ne_tick_of_closed (hM : M.Closed) {p : BasicBlockPtr} {BB : BasicBlock}
    (hBB : M.blockAt p = some BB) {inst : Instruction} (hinst : inst ∈ BB.body) {v : Value}
    (hv : v ∈ inst.op.values) : v ≠ .function M.functions.length := by
  rintro rfl
  have := (hM (p, BB) (M.mem_blockPtrs.mpr hBB)).1 inst hinst _ hv
  exact absurd this (Nat.lt_irrefl _)

theorem ne_tick_of_closed_term (hM : M.Closed) {p : BasicBlockPtr} {BB : BasicBlock}
    (hBB : M.blockAt p = some BB) {v : Value} (hv : v ∈ BB.term.op.values) :
    v ≠ .function M.functions.length := by
  rintro rfl
  have := (hM (p, BB) (M.mem_blockPtrs.mpr hBB)).2 _ hv
  exact absurd this (Nat.lt_irrefl _)

/-- A call of another function than the new one has the same target in both modules. -/
theorem target_iff {d : D} {target : Option FunctionPtr} {v : Value}
    (hv : v ≠ .function M.functions.length) :
    I.Target (some M.functions.length) d target v ↔ I.Target none d target v := by
  cases v with
  | function f =>
    have hf : some M.functions.length ≠ some f := fun hf => hv (by rw [Option.some.inj hf])
    exact and_congr_left fun _ => iff_of_true hf (by simp)
  | inst _ => exact Iff.rfl
  | constInt _ _ => exact Iff.rfl
  | other _ => exact Iff.rfl

theorem not_target_tick {d : D} {target : Option FunctionPtr} :
    ¬ I.Target (some M.functions.length) d target (.function M.functions.length) :=
  fun h => h.1 rfl

/-- Without a function that counts, every step is an act. -/
theorem label_eq_act {s s' : Config D} {l : Label} (h : Step M I none s l s') : l = .act := by
  cases h <;> first | rfl | contradiction

/-- What two modules share when their calls correspond: `n` is the only function that may count. -/
structure SameCalls (M₁ M₂ : Module) {N : Nat} (I : Interp D N) (t₁ t₂ : Option FunctionPtr)
    (n : FunctionPtr) : Prop where
  entry : ∀ f, M₁.entry f = M₂.entry f
  tick : ∀ f, t₁ = some f → f = n
  target : ∀ {d : D} {target : Option FunctionPtr} {v : Value}, v ≠ .function n →
    I.Target t₁ d target v → I.Target t₂ d target v

theorem Instrumented.sameCalls (h : Instrumented M M' costs) :
    SameCalls M' M I (some M.functions.length) none M.functions.length where
  entry := h.entry
  tick _ hf := (Option.some.inj hf).symm
  target hne := (target_iff hne).mp

theorem Instrumented.sameCalls_symm (h : Instrumented M M' costs) :
    SameCalls M M' I none (some M.functions.length) M.functions.length where
  entry f := (h.entry f).symm
  tick _ hf := nomatch hf
  target hne := (target_iff hne).mpr

section SameCalls

variable {M₁ M₂ : Module} {t₁ t₂ : Option FunctionPtr} {n : FunctionPtr} {p : BasicBlockPtr}
  {k : Nat} {cs : List Cont} {d : D} {l : Label}

/-- The step at an instruction that both modules have. -/
theorem SameCalls.step_inst (hcalls : SameCalls M₁ M₂ I t₁ t₂ n)
    (hinst : ∀ BB inst, M₁.blockAt p = some BB → BB.body[k]? = some inst →
      (∀ v ∈ inst.op.values, v ≠ .function n) ∧
        ∃ BB₂, M₂.blockAt p = some BB₂ ∧ BB₂.body[k]? = some inst)
    (hlen : ∀ BB, M₁.blockAt p = some BB → k ≠ BB.body.length) {s : Config D}
    (h : Step M₁ I t₁ ⟨.code p k, cs, d⟩ l s) : Step M₂ I t₂ ⟨.code p k, cs, d⟩ l s := by
  cases h with
  | exec hBB hk hop hd =>
    obtain ⟨-, BB₂, hBB₂, hk₂⟩ := hinst _ _ hBB hk
    exact .exec hBB₂ hk₂ hop hd
  | tick hBB hk hop hf =>
    -- The instruction is no call of the function that counts.
    have hne := (hinst _ _ hBB hk).1 _ (by rw [hop]; exact List.mem_cons_self)
    exact absurd (by rw [hcalls.tick _ hf]) hne
  | call hBB hk hop htarget hd =>
    obtain ⟨hne, BB₂, hBB₂, hk₂⟩ := hinst _ _ hBB hk
    rw [hcalls.entry]
    exact .call hBB₂ hk₂ hop
      (hcalls.target (hne _ (by rw [hop]; exact List.mem_cons_self)) htarget) hd
  | branch hBB hk _ _ => exact absurd hk (hlen _ hBB)
  | invoke hBB hk _ _ _ => exact absurd hk (hlen _ hBB)
  | ret hBB hk _ _ => exact absurd hk (hlen _ hBB)
  | unwind hBB hk _ _ => exact absurd hk (hlen _ hBB)

/-- The step at a terminator that both modules have. -/
theorem SameCalls.step_term (hcalls : SameCalls M₁ M₂ I t₁ t₂ n)
    (hterm : ∀ BB, M₁.blockAt p = some BB → (∀ v ∈ BB.term.op.values, v ≠ .function n) ∧
      ∃ BB₂, M₂.blockAt p = some BB₂ ∧ BB₂.term = BB.term) {s : Config D}
    (h : Step M₁ I t₁ ⟨.code p (M₁.bodyLength p), cs, d⟩ l s) :
    Step M₂ I t₂ ⟨.code p (M₂.bodyLength p), cs, d⟩ l s := by
  generalize hk₁ : M₁.bodyLength p = k at h
  have hno : ∀ {BB : BasicBlock} {inst : Instruction}, M₁.blockAt p = some BB →
      BB.body[k]? ≠ some inst := by
    intro BB inst hBB hk
    rw [← hk₁, bodyLength_of_blockAt hBB, List.getElem?_eq_none (Nat.le_refl _)] at hk
    exact nomatch hk
  cases h with
  | exec hBB hk _ _ => exact absurd hk (hno hBB)
  | tick hBB hk _ _ => exact absurd hk (hno hBB)
  | call hBB hk _ _ _ => exact absurd hk (hno hBB)
  | branch hBB hk hs hd =>
    obtain ⟨-, BB₂, hBB₂, heq⟩ := hterm _ hBB
    rw [← heq] at hs hd
    exact .branch hBB₂ (bodyLength_of_blockAt hBB₂) hs hd
  | invoke hBB hk hop htarget hd =>
    obtain ⟨hne, BB₂, hBB₂, heq⟩ := hterm _ hBB
    have htarget₂ := hcalls.target (hne _ (by rw [hop]; exact List.mem_cons_self)) htarget
    rw [hcalls.entry, ← heq]
    exact .invoke hBB₂ (bodyLength_of_blockAt hBB₂) (heq ▸ hop) htarget₂ hd
  | ret hBB hk hop hd =>
    obtain ⟨-, BB₂, hBB₂, heq⟩ := hterm _ hBB
    rw [← heq] at hop hd
    exact .ret hBB₂ (bodyLength_of_blockAt hBB₂) hop hd
  | unwind hBB hk hop hd =>
    obtain ⟨-, BB₂, hBB₂, heq⟩ := hterm _ hBB
    rw [← heq] at hop hd
    exact .unwind hBB₂ (bodyLength_of_blockAt hBB₂) hop hd

/-- The step outside of blocks. -/
theorem SameCalls.step_other (hcalls : SameCalls M₁ M₂ I t₁ t₂ n) {s s' : Config D}
    (hs : ∀ p k, s.ctrl ≠ .code p k) (h : Step M₁ I t₁ s l s') : Step M₂ I t₂ s l s' := by
  cases h with
  | callback hd =>
    rw [hcalls.entry]
    exact .callback hd
  | returnCall hd => exact .returnCall hd
  | returnInvoke hd => exact .returnInvoke hd
  | returnOutside => exact .returnOutside
  | unwindCall => exact .unwindCall
  | unwindInvoke => exact .unwindInvoke
  | unwindOutside => exact .unwindOutside
  | outside hd => exact .outside hd
  | outsideReturn => exact .outsideReturn
  | outsideUnwind => exact .outsideUnwind
  | _ => exact absurd rfl (hs _ _)

end SameCalls

/-- Before the terminator of the original block, both modules take the same steps. -/
theorem inst_step_iff (hM : M.Closed) (h : Instrumented M M' costs) {p : BasicBlockPtr} {k : Nat}
    (hk : k < M.bodyLength p) {cs : List Cont} {d : D} {l : Label} {s : Config D} :
    Step M' I (some M.functions.length) ⟨.code p k, cs, d⟩ l s ↔
      Step M I none ⟨.code p k, cs, d⟩ l s := by
  have hlt : ∀ BB, M.blockAt p = some BB → k < BB.body.length := by
    intro BB hBB
    rwa [bodyLength_of_blockAt hBB] at hk
  constructor
  · refine h.sameCalls.step_inst (fun BB' inst hBB' hinst => ?_) (fun BB' hBB' hlen => ?_)
    · obtain ⟨BB, hBB, rfl⟩ := h.blockAt_eq_some hBB'
      rw [insertTick_getElem_of_lt (hlt BB hBB)] at hinst
      exact ⟨fun v hv => ne_tick_of_closed hM hBB (List.mem_of_getElem? hinst) hv, BB, hBB, hinst⟩
    · have hle := h.bodyLength_le p
      rw [bodyLength_of_blockAt hBB'] at hle
      omega
  · refine h.sameCalls_symm.step_inst (fun BB inst hBB hinst => ?_) (fun BB hBB => (hlt BB hBB).ne)
    refine ⟨fun v hv => ne_tick_of_closed hM hBB (List.mem_of_getElem? hinst) hv, _,
      h.blockAt hBB, ?_⟩
    rw [insertTick_getElem_of_lt (hlt BB hBB), hinst]

/-- At their terminators, both modules take the same steps. -/
theorem term_step_iff (hM : M.Closed) (h : Instrumented M M' costs) {p : BasicBlockPtr}
    {cs : List Cont} {d : D} {l : Label} {s : Config D} :
    Step M' I (some M.functions.length) ⟨.code p (M'.bodyLength p), cs, d⟩ l s ↔
      Step M I none ⟨.code p (M.bodyLength p), cs, d⟩ l s := by
  constructor
  · refine h.sameCalls.step_term fun BB' hBB' => ?_
    obtain ⟨BB, hBB, rfl⟩ := h.blockAt_eq_some hBB'
    rw [insertTick_term]
    exact ⟨fun v hv => ne_tick_of_closed_term hM hBB hv, BB, hBB, rfl⟩
  · refine h.sameCalls_symm.step_term fun BB hBB => ?_
    exact ⟨fun v hv => ne_tick_of_closed_term hM hBB hv, _, h.blockAt hBB, insertTick_term⟩

/-- Where a call was inserted, the instrumented module takes the step that counts. -/
theorem tick_step_iff (h : Instrumented M M' costs) {p : BasicBlockPtr} {BB : BasicBlock}
    (hBB : M.blockAt p = some BB) {cost : CostTy} (hcost : costs.lookup p = some cost)
    {cs : List Cont} {d : D} {l : Label} {s : Config D} :
    Step M' I (some M.functions.length) ⟨.code p (M.bodyLength p), cs, d⟩ l s ↔
      l = .tick cost.toInt ∧ s = ⟨.code p (M.bodyLength p + 1), cs, d⟩ := by
  have hBB' := h.blockAt hBB
  have hinst := @insertTick_getElem_length M.functions.length costs p BB cost hcost
  rw [bodyLength_of_blockAt hBB]
  constructor
  · intro hstep
    have honly : ∀ {BB₁ : BasicBlock} {inst : Instruction}, M'.blockAt p = some BB₁ →
        BB₁.body[BB.body.length]? = some inst → tickCall M.functions.length cost = inst := by
      intro BB₁ inst hBB₁ hinst₁
      obtain rfl := Option.some.inj (hBB'.symm.trans hBB₁)
      exact Option.some.inj (hinst.symm.trans hinst₁)
    have hlt : ∀ {BB₁ : BasicBlock}, M'.blockAt p = some BB₁ →
        BB.body.length ≠ BB₁.body.length := by
      intro BB₁ hBB₁
      obtain rfl := Option.some.inj (hBB'.symm.trans hBB₁)
      rw [insertTick_length_of_some hcost]
      omega
    cases hstep with
    | exec hat hk hop _ =>
      obtain rfl := honly hat hk
      exact nomatch hop
    | tick hat hk hop _ =>
      obtain rfl := honly hat hk
      obtain ⟨-, hargs, -⟩ := Op.call.inj hop
      obtain ⟨harg, -⟩ := List.cons.inj hargs
      obtain ⟨-, rfl⟩ := Value.constInt.inj harg
      exact ⟨rfl, rfl⟩
    | call hat hk hop htarget _ =>
      obtain rfl := honly hat hk
      obtain ⟨rfl, -, -⟩ := Op.call.inj hop
      exact absurd htarget not_target_tick
    | branch hat hlen _ _ => exact absurd hlen (hlt hat)
    | invoke hat hlen _ _ _ => exact absurd hlen (hlt hat)
    | ret hat hlen _ _ => exact absurd hlen (hlt hat)
    | unwind hat hlen _ _ => exact absurd hlen (hlt hat)
  · rintro ⟨rfl, rfl⟩
    exact .tick hBB' hinst rfl rfl

/-- Outside of blocks, both modules take the same steps. -/
theorem other_step_iff (h : Instrumented M M' costs) {s s' : Config D} {l : Label}
    (hs : ∀ p k, s.ctrl ≠ .code p k) :
    Step M' I (some M.functions.length) s l s' ↔ Step M I none s l s' :=
  ⟨h.sameCalls.step_other hs, h.sameCalls_symm.step_other hs⟩

/-- No step starts in a block that does not exist. -/
theorem not_step_of_none {tick : Option FunctionPtr} {p : BasicBlockPtr} (hp : M'.blockAt p = none)
    {k : Nat} {cs : List Cont} {d : D} {l : Label} {s : Config D} :
    ¬ Step M' I tick ⟨.code p k, cs, d⟩ l s := by
  intro hstep
  cases hstep <;> simp_all

/-! ## Positions -/

/-- Control and the waiting calls are at positions of the module. -/
structure Within (M : Module) (s : Config D) : Prop where
  ctrl : ∀ p k, s.ctrl = .code p k → k ≤ M.bodyLength p
  conts : ∀ p k r, Cont.call p k r ∈ s.conts → k < M.bodyLength p

theorem within_entry (f : Option FunctionPtr) (p : BasicBlockPtr) (k : Nat)
    (h : M.entry f = .code p k) : k ≤ M.bodyLength p := by
  cases f with
  | none => exact absurd h (by simp [Module.entry])
  | some f =>
    rw [Module.entry] at h
    split_ifs at h
    obtain ⟨-, rfl⟩ := Ctrl.code.inj h
    exact Nat.zero_le _

theorem within_start (f : FunctionPtr) (d : D) : Within M (M.start f d) where
  ctrl p k h := within_entry (some f) p k h
  conts _ _ _ h := absurd h List.not_mem_nil

/-- One more waiting call, when it is at a position of the module. -/
theorem Within.conts_cons {s : Config D} (hs : Within M s) {c : Cont}
    (hc : ∀ p k r, Cont.call p k r = c → k < M.bodyLength p) (p : BasicBlockPtr) (k : Nat)
    (r : Option ValueId) (hmem : Cont.call p k r ∈ c :: s.conts) : k < M.bodyLength p := by
  rcases List.mem_cons.mp hmem with heq | hmem
  · exact hc p k r heq
  · exact hs.conts p k r hmem

/-- Every step leads to a position of the module. -/
theorem Within.step {tick : Option FunctionPtr} {s s' : Config D} {l : Label} (hs : Within M s)
    (h : Step M I tick s l s') : Within M s' := by
  have hnext : ∀ {p : BasicBlockPtr} {BB : BasicBlock} {k : Nat} {inst : Instruction},
      M.blockAt p = some BB → BB.body[k]? = some inst → k < M.bodyLength p := by
    intro p BB k inst hBB hinst
    rw [bodyLength_of_blockAt hBB]
    exact (List.getElem?_eq_some_iff.mp hinst).1
  have hzero : ∀ (q p : BasicBlockPtr) (k : Nat), Ctrl.code q 0 = .code p k →
      k ≤ M.bodyLength p := by
    rintro q p k hk
    obtain ⟨-, rfl⟩ := Ctrl.code.inj hk
    exact Nat.zero_le _
  have hsucc : ∀ (q p : BasicBlockPtr) (j k : Nat), j < M.bodyLength q →
      Ctrl.code q (j + 1) = .code p k → k ≤ M.bodyLength p := by
    rintro q p j k hj hk
    obtain ⟨rfl, rfl⟩ := Ctrl.code.inj hk
    exact hj
  have hpop : ∀ {c : Cont} {cs : List Cont} {ctrl : Ctrl} {d : D}, s = ⟨ctrl, c :: cs, d⟩ →
      ∀ p k r, Cont.call p k r ∈ cs → k < M.bodyLength p := by
    rintro c cs ctrl d rfl p k r hmem
    exact hs.conts p k r (List.mem_cons_of_mem c hmem)
  cases h with
  | exec hBB hinst _ _ => exact ⟨fun p k => hsucc _ p _ k (hnext hBB hinst), hs.conts⟩
  | tick hBB hinst _ _ => exact ⟨fun p k => hsucc _ p _ k (hnext hBB hinst), hs.conts⟩
  | call hBB hinst _ _ _ =>
    refine ⟨within_entry _, hs.conts_cons fun p k r heq => ?_⟩
    obtain ⟨rfl, rfl, -⟩ := Cont.call.inj heq
    exact hnext hBB hinst
  | branch _ _ _ _ => exact ⟨hzero _, hs.conts⟩
  | invoke _ _ _ _ _ =>
    exact ⟨within_entry _, hs.conts_cons fun _ _ _ heq => (nomatch heq)⟩
  | ret _ _ _ _ => exact ⟨fun _ _ hk => (nomatch hk), hs.conts⟩
  | unwind _ _ _ _ => exact ⟨fun _ _ hk => (nomatch hk), hs.conts⟩
  | returnCall _ =>
    exact ⟨fun p k => hsucc _ p _ k (hs.conts _ _ _ List.mem_cons_self), hpop rfl⟩
  | returnInvoke _ => exact ⟨hzero _, hpop rfl⟩
  | returnOutside => exact ⟨fun _ _ hk => (nomatch hk), hpop rfl⟩
  | unwindCall => exact ⟨fun _ _ hk => (nomatch hk), hpop rfl⟩
  | unwindInvoke => exact ⟨hzero _, hpop rfl⟩
  | unwindOutside => exact ⟨fun _ _ hk => (nomatch hk), hpop rfl⟩
  | outside _ => exact ⟨fun _ _ hk => (nomatch hk), hs.conts⟩
  | callback _ =>
    exact ⟨within_entry _, hs.conts_cons fun _ _ _ heq => (nomatch heq)⟩
  | outsideReturn => exact ⟨fun _ _ hk => (nomatch hk), hs.conts⟩
  | outsideUnwind => exact ⟨fun _ _ hk => (nomatch hk), hs.conts⟩

/-- At a position of the module there is nothing to erase. -/
theorem Within.eraseTicks_eq {s : Config D} (hs : Within M s) : eraseTicks M s = s := by
  obtain ⟨ctrl, conts, d⟩ := s
  cases ctrl with
  | code p k =>
    have := hs.ctrl p k rfl
    rw [eraseTicks, eraseCtrl, Nat.min_eq_left this]
  | _ => rfl

/-- A configuration of the instrumented module from which no call of `tick` has to be made before
the original module can be followed. -/
structure Settled (M M' : Module) (s : Config D) : Prop where
  ctrl : ∀ p k, s.ctrl = .code p k → k < M.bodyLength p ∨ k = M'.bodyLength p
  conts : ∀ p k r, Cont.call p k r ∈ s.conts → k < M.bodyLength p

/-- A configuration of the instrumented module: at a position of the original one, or settled. -/
def Position (M M' : Module) (s : Config D) : Prop := Within M s ∨ Settled M M' s

theorem Position.conts {s : Config D} (hs : Position M M' s) :
    ∀ p k r, Cont.call p k r ∈ s.conts → k < M.bodyLength p := by
  rcases hs with hs | hs
  · exact hs.conts
  · exact hs.conts

theorem Position.within_erase {s : Config D} (hs : Position M M' s) :
    Within M (eraseTicks M s) := by
  refine ⟨fun p k hk => ?_, hs.conts⟩
  obtain ⟨ctrl, conts, d⟩ := s
  cases ctrl with
  | code q j =>
    obtain ⟨rfl, rfl⟩ := Ctrl.code.inj hk
    exact Nat.min_le_right _ _
  | outside => exact nomatch hk
  | returning => exact nomatch hk
  | unwinding => exact nomatch hk

theorem reachedCost_of_ctrl {s : Config D} (hs : ∀ p k, s.ctrl ≠ .code p k) :
    reachedCost M costs s = 0 := by
  obtain ⟨ctrl, conts, d⟩ := s
  cases ctrl with
  | code p k => exact absurd rfl (hs p k)
  | outside => rfl
  | returning => rfl
  | unwinding => rfl

theorem reached_code (M : Module) (p : BasicBlockPtr) (k : Nat) (cs : List Cont) (d : D) :
    M.reached ⟨.code p k, cs, d⟩ =
      (M.blockAt p).bind fun BB => if k = BB.body.length then some p else none := rfl

theorem reachedCost_of_ne {p : BasicBlockPtr} {k : Nat} (hk : k ≠ M.bodyLength p)
    {cs : List Cont} {d : D} : reachedCost M costs ⟨.code p k, cs, d⟩ = 0 := by
  rw [reachedCost, reached_code]
  cases hBB : M.blockAt p with
  | none => rfl
  | some BB =>
    rw [bodyLength_of_blockAt hBB] at hk
    rw [Option.bind_some, if_neg hk]

theorem reachedCost_at {p : BasicBlockPtr} {BB : BasicBlock} (hBB : M.blockAt p = some BB)
    {cs : List Cont} {d : D} :
    reachedCost M costs ⟨.code p (M.bodyLength p), cs, d⟩ = (costs.findD p 0).toInt := by
  rw [reachedCost, reached_code, hBB, Option.bind_some, if_pos (bodyLength_of_blockAt hBB)]

theorem reachedCost_of_lookup_none {p : BasicBlockPtr} (hp : costs.lookup p = none) {k : Nat}
    {cs : List Cont} {d : D} : reachedCost M costs ⟨.code p k, cs, d⟩ = 0 := by
  by_cases hk : k = M.bodyLength p
  · cases hBB : M.blockAt p with
    | none => rw [reachedCost, reached_code, hBB]; rfl
    | some BB =>
      rw [hk, reachedCost_at hBB, UnorderedMap.findD, hp]
      rfl
  · exact reachedCost_of_ne hk

theorem findD_of_lookup {p : BasicBlockPtr} {cost : CostTy} (h : costs.lookup p = some cost) :
    costs.findD p 0 = cost := by
  rw [UnorderedMap.findD, h]
  rfl

theorem Instrumented.bodyLength_of_some (h : Instrumented M M' costs) {p : BasicBlockPtr}
    {BB : BasicBlock} (hBB : M.blockAt p = some BB) {cost : CostTy}
    (hcost : costs.lookup p = some cost) : M'.bodyLength p = M.bodyLength p + 1 := by
  rw [bodyLength_of_blockAt (h.blockAt hBB), insertTick_length_of_some hcost,
    bodyLength_of_blockAt hBB]

theorem Instrumented.bodyLength_of_lookup_none (h : Instrumented M M' costs) {p : BasicBlockPtr}
    (hcost : costs.lookup p = none) : M'.bodyLength p = M.bodyLength p := by
  cases hBB : M.blockAt p with
  | none => rw [bodyLength_of_none hBB, bodyLength_of_none (by rw [h p, hBB]; rfl)]
  | some BB =>
    rw [bodyLength_of_blockAt (h.blockAt hBB), insertTick_length_of_none hcost,
      bodyLength_of_blockAt hBB]

/-- The two kinds of steps of the instrumented module: a step of the original one, from a
configuration at which no cost is due, or the step that counts the cost that is due. -/
theorem step_cases (hM : M.Closed) (h : Instrumented M M' costs) {s s' : Config D} {l : Label}
    (hs : Position M M' s) (hstep : Step M' I (some M.functions.length) s l s') :
    (l = .act ∧ Step M I none (eraseTicks M s) .act s' ∧ Within M s' ∧
      reachedCost M costs s = 0) ∨
    ∃ p BB cost, M.blockAt p = some BB ∧ costs.lookup p = some cost ∧ l = .tick cost.toInt ∧
      s = ⟨.code p (M.bodyLength p), s.conts, s.data⟩ ∧
      s' = ⟨.code p (M'.bodyLength p), s.conts, s.data⟩ ∧
      M'.bodyLength p = M.bodyLength p + 1 := by
  have hact : ∀ {l : Label}, Step M I none (eraseTicks M s) l s' → reachedCost M costs s = 0 →
      l = .act ∧ Step M I none (eraseTicks M s) .act s' ∧ Within M s' ∧
        reachedCost M costs s = 0 := by
    intro l hstep hcost
    obtain rfl := label_eq_act hstep
    exact ⟨rfl, hstep, hs.within_erase.step hstep, hcost⟩
  obtain ⟨ctrl, conts, d⟩ := s
  by_cases hcode : ∀ p k, ctrl ≠ .code p k
  · left
    have herase : eraseTicks M ⟨ctrl, conts, d⟩ = (⟨ctrl, conts, d⟩ : Config D) := by
      cases ctrl with
      | code p k => exact absurd rfl (hcode p k)
      | _ => rfl
    refine hact ?_ (reachedCost_of_ctrl hcode)
    rw [herase]
    exact (other_step_iff h hcode).mp hstep
  · push Not at hcode
    obtain ⟨p, k, rfl⟩ := hcode
    rcases Nat.lt_or_ge k (M.bodyLength p) with hk | hk
    · left
      refine hact ?_ (reachedCost_of_ne hk.ne)
      rw [eraseTicks, eraseCtrl, Nat.min_eq_left hk.le]
      exact (inst_step_iff hM h hk).mp hstep
    · have hk' : k = M.bodyLength p ∨ k = M'.bodyLength p := by
        rcases hs with hs | hs
        · exact .inl (le_antisymm (hs.ctrl p k rfl) hk)
        · exact .inr ((hs.ctrl p k rfl).resolve_left (by omega))
      have hterm : k = M'.bodyLength p → reachedCost M costs (⟨.code p k, conts, d⟩ : Config D) = 0 →
          l = .act ∧ Step M I none (eraseTicks M ⟨.code p k, conts, d⟩) .act s' ∧ Within M s' ∧
            reachedCost M costs (⟨.code p k, conts, d⟩ : Config D) = 0 := by
        intro hend hcost
        refine hact ?_ hcost
        rw [eraseTicks, eraseCtrl, Nat.min_eq_right hk]
        subst hend
        exact (term_step_iff hM h).mp hstep
      cases hBB : M.blockAt p with
      | none => exact absurd hstep (not_step_of_none (by rw [h p, hBB]; rfl))
      | some BB =>
        cases hcost : costs.lookup p with
        | none =>
          have hlen := h.bodyLength_of_lookup_none hcost
          exact .inl (hterm (by omega) (reachedCost_of_lookup_none hcost))
        | some cost =>
          have hlen := h.bodyLength_of_some hBB hcost
          rcases hk' with rfl | rfl
          · right
            obtain ⟨rfl, rfl⟩ := (tick_step_iff h hBB hcost).mp hstep
            exact ⟨p, BB, cost, hBB, hcost, rfl, rfl, by rw [hlen], hlen⟩
          · exact .inl (hterm rfl (reachedCost_of_ne (by omega)))

/-! ## Runs -/

/-- What is erased leaves a step of the original module. -/
theorem forward (hM : M.Closed) (h : Instrumented M M' costs) :
    Forward (Step M I none) (Step M' I (some M.functions.length)) (eraseTicks M) visible
      (Position M M') := by
  intro s l s' hs hstep
  rcases step_cases hM h hs hstep with ⟨rfl, hact, hwithin, -⟩ |
    ⟨p, BB, cost, hBB, hcost, rfl, heq, rfl, hlen⟩
  · refine ⟨.inl hwithin, ?_⟩
    have : Step M I none (eraseTicks M s) .act (eraseTicks M s') := by
      rw [hwithin.eraseTicks_eq]
      exact hact
    exact this
  · refine ⟨.inr ⟨fun q k hk => ?_, hs.conts⟩, ?_⟩
    · obtain ⟨rfl, rfl⟩ := Ctrl.code.inj hk
      exact .inr rfl
    · have : eraseTicks M (⟨.code p (M'.bodyLength p), s.conts, s.data⟩ : Config D) =
          eraseTicks M s := by
        rw [heq]
        simp only [eraseTicks, eraseCtrl]
        rw [Nat.min_self, Nat.min_eq_right (by omega)]
      exact this

/-- From a position of the original module, at most one call of `tick` leads to a configuration
from which the original module can be followed. -/
theorem settle (h : Instrumented M M' costs) {s : Config D} (hs : Within M s) :
    ∃ r s', Run (Step M' I (some M.functions.length)) s r s' ∧ seen (eraseTicks M) visible r = [] ∧
      eraseTicks M s' = s ∧ Settled M M' s' := by
  have hstay : (∀ p k, s.ctrl = .code p k → k < M.bodyLength p ∨ k = M'.bodyLength p) →
      ∃ r s', Run (Step M' I (some M.functions.length)) s r s' ∧
        seen (eraseTicks M) visible r = [] ∧ eraseTicks M s' = s ∧ Settled M M' s' :=
    fun hctrl => ⟨[], s, .nil s, rfl, hs.eraseTicks_eq, hctrl, hs.conts⟩
  obtain ⟨ctrl, conts, d⟩ := s
  cases ctrl with
  | code p k =>
    rcases Nat.lt_or_ge k (M.bodyLength p) with hk | hk
    · refine hstay fun q j hj => ?_
      obtain ⟨rfl, rfl⟩ := Ctrl.code.inj hj
      exact .inl hk
    · obtain rfl : k = M.bodyLength p := le_antisymm (hs.ctrl p k rfl) hk
      have hnone : M'.bodyLength p = M.bodyLength p → ∀ q j,
          Ctrl.code p (M.bodyLength p) = .code q j → j < M.bodyLength q ∨ j = M'.bodyLength q := by
        intro hlen q j hj
        obtain ⟨rfl, rfl⟩ := Ctrl.code.inj hj
        exact .inr hlen.symm
      cases hBB : M.blockAt p with
      | none =>
        refine hstay (hnone ?_)
        rw [bodyLength_of_none hBB, bodyLength_of_none (by rw [h p, hBB]; rfl)]
      | some BB =>
        cases hcost : costs.lookup p with
        | none => exact hstay (hnone (h.bodyLength_of_lookup_none hcost))
        | some cost =>
          have hlen := h.bodyLength_of_some hBB hcost
          refine ⟨_, _, .cons ((tick_step_iff h hBB hcost).mpr ⟨rfl, rfl⟩) (.nil _), rfl, ?_, ?_,
            hs.conts⟩
          · simp only [eraseTicks, eraseCtrl]
            rw [Nat.min_eq_right (by omega)]
          · intro q j hj
            obtain ⟨rfl, rfl⟩ := Ctrl.code.inj hj
            exact .inr hlen.symm
  | outside => exact hstay fun _ _ hk => nomatch hk
  | returning => exact hstay fun _ _ hk => nomatch hk
  | unwinding => exact hstay fun _ _ hk => nomatch hk

/-- Every step of the original module is taken by the instrumented one. -/
theorem backward (hM : M.Closed) (h : Instrumented M M' costs) :
    Backward (Step M I none) (Step M' I (some M.functions.length)) (eraseTicks M) visible
      (Settled M M') := by
  intro s l s' hs hstep
  have hwithin : Within M s' := (Position.within_erase (.inr hs)).step hstep
  obtain rfl := label_eq_act hstep
  have hstep' : Step M' I (some M.functions.length) s .act s' := by
    obtain ⟨ctrl, conts, d⟩ := s
    cases ctrl with
    | code p k =>
      rw [eraseTicks, eraseCtrl] at hstep
      rcases hs.ctrl p k rfl with hk | rfl
      · rw [Nat.min_eq_left hk.le] at hstep
        exact (inst_step_iff hM h hk).mpr hstep
      · rw [Nat.min_eq_right (h.bodyLength_le p)] at hstep
        exact (term_step_iff hM h).mpr hstep
    | outside => exact (other_step_iff h (by intro _ _ hk; cases hk)).mpr hstep
    | returning => exact (other_step_iff h (by intro _ _ hk; cases hk)).mpr hstep
    | unwinding => exact (other_step_iff h (by intro _ _ hk; cases hk)).mpr hstep
  obtain ⟨r, t, hrun, hseen, herase, hsettled⟩ := settle (I := I) h hwithin
  exact ⟨.act, s', r, t, hstep', rfl, hrun, hseen, hwithin.eraseTicks_eq, herase, hsettled⟩

/-! ## The counter -/

/-- Where the original module could go on, the instrumented one has no cost to count. -/
theorem reachedCost_of_within (h : Instrumented M M' costs) {s : Config D} (hs : Within M s) :
    reachedCost M' costs s = 0 := by
  obtain ⟨ctrl, conts, d⟩ := s
  by_cases hcode : ∀ p k, ctrl ≠ .code p k
  · exact reachedCost_of_ctrl hcode
  · push Not at hcode
    obtain ⟨p, k, rfl⟩ := hcode
    cases hcost : costs.lookup p with
    | none => exact reachedCost_of_lookup_none hcost
    | some cost =>
      cases hBB : M.blockAt p with
      | none => rw [reachedCost, reached_code, h p, hBB]; rfl
      | some BB =>
        have hle := hs.ctrl p k rfl
        exact reachedCost_of_ne (by rw [h.bodyLength_of_some hBB hcost]; omega)

/-- The counter of a run of the instrumented module. -/
theorem tickCounter_eq (hM : M.Closed) (h : Instrumented M M' costs) {s t : Config D}
    {r : List (Label × Config D)} (hs : Within M s)
    (hr : Run (Step M' I (some M.functions.length)) s r t) :
    tickCounter r = runCost M' costs s r := by
  have hsum := Run.sum_eq (fun x => reachedCost M' costs x.2) (fun x => x.1.count)
    (fun _ => 0) (Position M M') ?_ (.inl hs) hr
  · rw [runCost, reachedCost_of_within h hs, zero_add]
    simpa [tickCounter] using hsum
  · intro s l t hs hstep
    refine ⟨(forward hM h s l t hs hstep).1, ?_⟩
    rcases step_cases hM h hs hstep with ⟨rfl, -, hwithin, -⟩ |
      ⟨p, BB, cost, hBB, hcost, rfl, -, rfl, hlen⟩
    · simp [Label.count, reachedCost_of_within h hwithin]
    · change cost.toInt + 0 = reachedCost M' costs ⟨.code p (M'.bodyLength p), s.conts, s.data⟩ + 0
      rw [reachedCost_at (h.blockAt hBB), findD_of_lookup hcost]

/-- The counter of a run against the run of the original module that is seen of it: they differ by
the cost that is due at the end. -/
theorem tickCounter_seen (hM : M.Closed) (h : Instrumented M M' costs) {s t : Config D}
    {r : List (Label × Config D)} (hs : Within M s)
    (hr : Run (Step M' I (some M.functions.length)) s r t) :
    runCost M costs s (seen (eraseTicks M) visible r) = tickCounter r + reachedCost M costs t := by
  have hseen : ∀ r : List (Label × Config D),
      ((seen (eraseTicks M) visible r).map fun x => reachedCost M costs x.2).sum =
        (r.map fun x => if x.1 = .act then reachedCost M costs (eraseTicks M x.2) else 0).sum := by
    intro r
    induction r with
    | nil => rfl
    | cons x r ih =>
      obtain ⟨l, u⟩ := x
      cases l with
      | act =>
        have hact : visible .act = some .act := rfl
        rw [seen_cons_some hact]
        simp [ih]
      | tick c =>
        have htick : visible (.tick c) = none := rfl
        rw [seen_cons_none htick]
        simp [ih]
  have hsum := Run.sum_eq (fun x => x.1.count)
    (fun x => if x.1 = .act then reachedCost M costs (eraseTicks M x.2) else 0)
    (reachedCost M costs) (Position M M') ?_ (.inl hs) hr
  · rw [runCost, hseen, tickCounter]
    omega
  · intro s l t hs hstep
    refine ⟨(forward hM h s l t hs hstep).1, ?_⟩
    rcases step_cases hM h hs hstep with ⟨rfl, -, hwithin, hzero⟩ |
      ⟨p, BB, cost, hBB, hcost, rfl, heq, rfl, hlen⟩
    · simp [Label.count, hzero, hwithin.eraseTicks_eq]
    · rw [heq, reachedCost_at hBB, findD_of_lookup hcost, reachedCost_of_ne (by omega)]
      simp [Label.count]

theorem reachedCost_of_settled (h : Instrumented M M' costs) {s : Config D}
    (hs : Settled M M' s) : reachedCost M costs s = 0 := by
  obtain ⟨ctrl, conts, d⟩ := s
  by_cases hcode : ∀ p k, ctrl ≠ .code p k
  · exact reachedCost_of_ctrl hcode
  · push Not at hcode
    obtain ⟨p, k, rfl⟩ := hcode
    cases hcost : costs.lookup p with
    | none => exact reachedCost_of_lookup_none hcost
    | some cost =>
      cases hBB : M.blockAt p with
      | none => rw [reachedCost, reached_code, hBB]; rfl
      | some BB =>
        have hlen := h.bodyLength_of_some hBB hcost
        refine reachedCost_of_ne ?_
        rcases hs.ctrl p k rfl with hk | rfl
        · omega
        · omega

end Steps

/-! ## The instrumentation -/

section Calls

variable {M M' : Module} {costs : BlockCostMapType}

theorem callee_mem_values {op : Op} {v : Value} (h : op.callee = some v) : v ∈ op.values := by
  cases op with
  | call callee args kind =>
    obtain rfl := Option.some.inj h
    exact List.mem_cons_self
  | _ => exact absurd h (by simp [Op.callee])

theorem term_callee_mem_values {op : TermOp} {v : Value} (h : op.callee = some v) :
    v ∈ op.values := by
  cases op with
  | invoke callee args normal unwind =>
    obtain rfl := Option.some.inj h
    exact List.mem_cons_self
  | _ => exact absurd h (by simp [TermOp.callee])

/-- The module itself does not call the new function. -/
theorem callsOf_tick (hM : M.Closed) {p : BasicBlockPtr} {BB : BasicBlock}
    (hBB : M.blockAt p = some BB) :
    BB.body.countP (·.op.callee = some (.function M.functions.length)) = 0 ∧
      BB.term.op.callee ≠ some (.function M.functions.length) := by
  constructor
  · rw [List.countP_eq_zero]
    intro inst hinst hcallee
    rw [decide_eq_true_eq] at hcallee
    exact ne_tick_of_closed hM hBB hinst (callee_mem_values hcallee) rfl
  · intro hcallee
    exact ne_tick_of_closed_term hM hBB (term_callee_mem_values hcallee) rfl

theorem Instrumented.callsOf (hM : M.Closed) (h : Instrumented M M' costs) {p : BasicBlockPtr}
    {BB' : BasicBlock} (hBB' : M'.blockAt p = some BB') :
    BB'.callsOf M.functions.length = if (costs.lookup p).isSome then 1 else 0 := by
  obtain ⟨BB, hBB, rfl⟩ := h.blockAt_eq_some hBB'
  obtain ⟨hbody, hterm⟩ := callsOf_tick hM hBB
  rw [BasicBlock.callsOf, insertTick_body, insertTick_term, List.countP_append, hbody,
    if_neg hterm]
  cases costs.lookup p with
  | none => rfl
  | some cost => simp [tickCall, Op.callee]

theorem Instrumented.simulates (hM : M.Closed) (h : Instrumented M M' costs) :
    Simulates M M' costs M.functions.length where
  calls p BB' hBB' := h.callsOf hM hBB'
  erased D I f d r s hr := by
    have hstart : M'.start f d = M.start f d := by rw [Module.start, Module.start, h.entry]
    rw [hstart] at hr ⊢
    have hwithin : Within M (M.start f d) := within_start f d
    have hrun := ((forward hM h).run (.inl hwithin) hr).1
    rw [hwithin.eraseTicks_eq] at hrun
    exact ⟨hrun, tickCounter_eq hM h hwithin hr⟩
  followed D I f d r s hr := by
    have hstart : M'.start f d = M.start f d := by rw [Module.start, Module.start, h.entry]
    have hwithin : Within M (M.start f d) := within_start f d
    obtain ⟨r₀, s₀, hrun₀, hseen₀, herase₀, hsettled₀⟩ := settle (I := I) h hwithin
    rw [← herase₀] at hr
    obtain ⟨r₁, s₁, hrun₁, hseen₁, herase₁, hsettled₁⟩ := (backward hM h).run hsettled₀ hr
    have hseen : seen (eraseTicks M) visible (r₀ ++ r₁) = r := by
      rw [seen_append, hseen₀, hseen₁, List.nil_append]
    have hrun := hrun₀.append hrun₁
    refine ⟨r₀ ++ r₁, s₁, hstart ▸ hrun, hseen, herase₁, ?_⟩
    have hcount := tickCounter_seen hM h hwithin hrun
    rw [hseen, reachedCost_of_settled h hsettled₁, add_zero] at hcount
    exact hcount.symm

end Calls

/-- **`cost2tick` is cost-exact and preserves runs**, for every module in which no variable and no
alias has the name `tick`. A function of that name keeps its position, so that the calls of it still
reach it, under another name. -/
theorem cost2tick_simulates (U : NameUniquer) (M : Module) (blockCostMap : BlockCostMapType)
    (hM : M.Closed) (hsym : ∀ i, M.symbols.lookup "tick" ≠ some (.global i)) :
    ∃ M', cost2tick U M blockCostMap = some M' ∧
      M'.getFunction "tick" = some M.functions.length ∧
      (∀ u, M.getFunction "tick" = some u →
        ∃ name, name ≠ "tick" ∧ M'.getFunction name = some u) ∧
      Simulates M M' blockCostMap M.functions.length := by
  obtain ⟨M₁, h⟩ := createTick_created U hsym
  refine ⟨M₁.mapBlocks (insertTick M.functions.length blockCostMap), ?_, h.tick, h.original, ?_⟩
  · rw [cost2tick, h.eq]
  · refine Instrumented.simulates hM fun p => ?_
    rw [Module.blockAt_mapBlocks, Module.blockAt_of_append (List.forall_mem_singleton.mpr rfl) h.functions]

/-- A function that calls the user's own `tick`, which returns at once. -/
def callsTick : Module where
  functions := [
    { type := ⟨.void, []⟩
      blocks := [
        { body := [], term := { op := .jump [] [1] } },
        { body := [{ op := .call (.function 1) [.constInt 32 7] .plain }],
          term := { op := .ret none } }] },
    { type := tickType, blocks := [{ body := [], term := { op := .ret none } }] }]
  symbols := ((∅ : SymbolTable).insert "main" (.function 0)).insert "tick" (.function 1)

def callsTickCosts : BlockCostMapType :=
  ((∅ : BlockCostMapType).insert ⟨0, 0⟩ 90).insert ⟨1, 0⟩ 45

theorem cost2tick_simulates_callsTick :
    ∃ M', cost2tick paddedUniquer callsTick callsTickCosts = some M' ∧
      M'.getFunction "tick" = some callsTick.functions.length ∧
      (∀ u, callsTick.getFunction "tick" = some u →
        ∃ name, name ≠ "tick" ∧ M'.getFunction name = some u) ∧
      Simulates callsTick M' callsTickCosts callsTick.functions.length :=
  cost2tick_simulates paddedUniquer callsTick callsTickCosts (by decide) fun i h =>
    absurd ((AList.lookup_insert _).symm.trans h) (by simp)

end Gpscat.CoFloCoWrapper

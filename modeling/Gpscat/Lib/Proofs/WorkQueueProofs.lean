import Gpscat.Lib.WorkQueue
import Gpscat.Lib.Proofs.SimulationProofs

/-!
# The work queue, however the threads are interleaved

Every item is consumed once, and in order. The two threads do not block each other for ever, and the
number of their steps is bounded by the work of the producer and the times `wait` returns for no
reason.
-/

namespace WorkQueue

variable {P α σ : Type}

/-! ## Steps -/

/-- The steps of the producer. -/
inductive ProducerStep (sys : System P α σ) (s : State P α σ) : State P α σ → Prop where
  | go {p : P} (hs : s.producer = .running) (h : sys.produce s.source = .go p) :
    ProducerStep sys s { s with source := p }
  | item {a : α} {p : P} (hs : s.producer = .running) (h : sys.produce s.source = .item a p) :
    ProducerStep sys s { s with source := p, producer := .lock a false }
  | last {a : α} {p : P} (hs : s.producer = .running) (h : sys.produce s.source = .last a p) :
    ProducerStep sys s { s with source := p, producer := .lock a true }
  | lock {a : α} {last : Bool} (hs : s.producer = .lock a last) (hfree : s.mutex = none) :
    ProducerStep sys s { s with mutex := some .producer, producer := .push a last }
  | push {a : α} (hs : s.producer = .push a false) :
    ProducerStep sys s { s with queue := s.queue ++ [some a], producer := .notify false }
  | pushLast {a : α} (hs : s.producer = .push a true) :
    ProducerStep sys s { s with queue := s.queue ++ [some a], producer := .pushEnd }
  | pushEnd (hs : s.producer = .pushEnd) :
    ProducerStep sys s { s with queue := s.queue ++ [none], producer := .notify true }
  | notify {last : Bool} (hs : s.producer = .notify last) (hc : s.consumer ≠ .waiting) :
    ProducerStep sys s { s with producer := .unlock last }
  | wake {last : Bool} (hs : s.producer = .notify last) (hc : s.consumer = .waiting) :
    ProducerStep sys s { s with consumer := .lock, producer := .unlock last }
  | unlock (hs : s.producer = .unlock false) :
    ProducerStep sys s { s with mutex := none, producer := .running }
  | unlockLast (hs : s.producer = .unlock true) :
    ProducerStep sys s { s with mutex := none, producer := .join }
  | join (hs : s.producer = .join) (hc : s.consumer = .stopped) :
    ProducerStep sys s { s with producer := .joined }

/-- The steps of the consumer, and the return of `wait`. -/
inductive ConsumerStep (sys : System P α σ) (s : State P α σ) : State P α σ → Prop where
  | lock (hs : s.consumer = .lock) (hfree : s.mutex = none) :
    ConsumerStep sys s { s with mutex := some .consumer, consumer := .test }
  | wait (hs : s.consumer = .test) (hq : s.queue = []) :
    ConsumerStep sys s { s with mutex := none, consumer := .waiting }
  | go (hs : s.consumer = .test) (hq : s.queue ≠ []) :
    ConsumerStep sys s { s with consumer := .pop }
  | pop {item : Option α} {queue : List (Option α)} (hs : s.consumer = .pop)
    (hq : s.queue = item :: queue) :
    ConsumerStep sys s { s with queue := queue, consumer := .taken item }
  | stop (hs : s.consumer = .taken none) :
    ConsumerStep sys s { s with mutex := none, consumer := .stopped }
  | unlock {a : α} (hs : s.consumer = .taken (some a)) :
    ConsumerStep sys s { s with mutex := none, consumer := .consuming a }
  | consume {a : α} (hs : s.consumer = .consuming a) :
    ConsumerStep sys s { s with result := sys.consume s.result a, consumer := .lock }

variable {sys : System P α σ} {s t : State P α σ}

theorem acquire_eq_some {th : Thread} (h : s.acquire th = some t) :
    s.mutex = none ∧ t = { s with mutex := some th } := by
  unfold State.acquire at h
  split at h
  · exact ⟨‹_›, (Option.some.inj h).symm⟩
  · cases h

theorem ProducerStep.of_eq (h : sys.producerStep s = some t) : ProducerStep sys s t := by
  unfold System.producerStep at h
  split at h
  · next hs =>
    split at h <;> cases h
    · next hp => exact .go hs hp
    · next hp => exact .item hs hp
    · next hp => exact .last hs hp
  · next hs =>
    obtain ⟨u, hu, rfl⟩ := Option.map_eq_some_iff.mp h
    obtain ⟨hfree, rfl⟩ := acquire_eq_some hu
    exact .lock hs hfree
  · next last hs =>
    cases h
    cases last with
    | false => exact .push hs
    | true => exact .pushLast hs
  · next hs =>
    cases h
    exact .pushEnd hs
  · next hs =>
    cases h
    unfold State.notifyOne
    split
    · next hc => exact .wake hs hc
    · next hc => exact .notify hs hc
  · next last hs =>
    cases h
    cases last with
    | false => exact .unlock hs
    | true => exact .unlockLast hs
  · next hs =>
    split at h <;> cases h
    next hc => exact .join hs hc
  · cases h

theorem ConsumerStep.of_eq (h : sys.consumerStep s = some t) : ConsumerStep sys s t := by
  unfold System.consumerStep at h
  split at h
  · next hs =>
    obtain ⟨u, hu, rfl⟩ := Option.map_eq_some_iff.mp h
    obtain ⟨hfree, rfl⟩ := acquire_eq_some hu
    exact .lock hs hfree
  · next hs =>
    split at h <;> cases h
    · next hq => exact .wait hs (List.isEmpty_iff.mp hq)
    · next hq => exact .go hs fun hnil => hq (List.isEmpty_iff.mpr hnil)
  · cases h
  · next hs =>
    split at h <;> cases h
    next hq => exact .pop hs hq
  · next hs =>
    cases h
    exact .stop hs
  · next hs =>
    cases h
    exact .unlock hs
  · next hs =>
    cases h
    exact .consume hs
  · cases h

/-! ## The mutex and the condition variable -/

/-- The producer is going to notify before it releases the mutex. -/
def ProducerPoint.Notifies : ProducerPoint α → Prop
  | .pushEnd | .notify _ => True
  | .running | .lock _ _ | .push _ _ | .unlock _ | .join | .joined => False

/-- Who holds the mutex, and why no notification is lost. -/
structure Guarded (s : State P α σ) : Prop where
  producer : s.producer.Holds ↔ s.mutex = some .producer
  consumer : s.consumer.Holds ↔ s.mutex = some .consumer
  /-- While the consumer sleeps, the queue is empty or a notification is on its way. -/
  waiting : s.consumer = .waiting → s.queue = [] ∨ s.producer.Notifies
  pop : s.consumer = .pop → s.queue ≠ []
  joined : s.producer = .joined → s.consumer = .stopped

theorem Guarded.start (p : P) (result : σ) :
    Guarded ({ source := p, result := result } : State P α σ) :=
  ⟨⟨False.elim, nofun⟩, ⟨False.elim, nofun⟩, nofun, nofun, nofun⟩

/-- A thread cannot take the mutex while the other one holds it. -/
theorem Guarded.not_both (h : Guarded s) (hp : s.producer.Holds) : ¬ s.consumer.Holds := by
  intro hc
  have hmutex := (h.producer.mp hp).symm.trans (h.consumer.mp hc)
  exact absurd hmutex nofun

theorem Guarded.producerStep (h : Guarded s) (hstep : ProducerStep sys s t) : Guarded t := by
  have hboth := h.not_both
  obtain ⟨hp, hc, hw, hpop, hj⟩ := h
  cases hstep with
  | go hs => exact ⟨hp, hc, hw, hpop, hj⟩
  | item hs | last hs =>
    rw [hs] at hp hw
    exact ⟨hp, hc, hw, hpop, nofun⟩
  | lock hs hfree =>
    rw [hs] at hw
    have hidle : ¬ s.consumer.Holds := fun hhold => absurd (hfree.symm.trans (hc.mp hhold)) nofun
    exact ⟨⟨fun _ => rfl, fun _ => trivial⟩, ⟨fun hhold => absurd hhold hidle, nofun⟩, hw, hpop, nofun⟩
  | push hs | pushLast hs | pushEnd hs =>
    rw [hs] at hp
    exact ⟨hp, hc, fun _ => .inr trivial, fun _ hnil => absurd hnil (by simp), nofun⟩
  | notify hs hne =>
    rw [hs] at hp
    exact ⟨hp, hc, fun hwait => absurd hwait hne, hpop, nofun⟩
  | wake hs hwait =>
    rw [hs] at hp
    rw [hwait] at hc
    exact ⟨hp, hc, nofun, nofun, nofun⟩
  | unlock hs | unlockLast hs =>
    rw [hs] at hw hboth
    have hidle := hboth trivial
    exact ⟨⟨False.elim, nofun⟩, ⟨fun hhold => absurd hhold hidle, nofun⟩, hw, hpop, nofun⟩
  | join hs hstop =>
    rw [hs] at hp hw
    exact ⟨hp, hc, hw, hpop, fun _ => hstop⟩

theorem Guarded.consumerStep (h : Guarded s) (hstep : ConsumerStep sys s t) : Guarded t := by
  have hboth := h.not_both
  obtain ⟨hp, hc, hw, hpop, hj⟩ := h
  cases hstep with
  | lock hs hfree =>
    rw [hs] at hj
    have hidle : ¬ s.producer.Holds := fun hhold => absurd (hfree.symm.trans (hp.mp hhold)) nofun
    exact ⟨⟨fun hhold => absurd hhold hidle, nofun⟩, ⟨fun _ => rfl, fun _ => trivial⟩, nofun, nofun,
      fun hjoined => absurd (hj hjoined) nofun⟩
  | wait hs hq =>
    rw [hs] at hj hboth
    have hidle : ¬ s.producer.Holds := fun hhold => hboth hhold trivial
    exact ⟨⟨fun hhold => absurd hhold hidle, nofun⟩, ⟨False.elim, nofun⟩, fun _ => .inl hq, nofun,
      fun hjoined => absurd (hj hjoined) nofun⟩
  | go hs hq =>
    rw [hs] at hc hj
    exact ⟨hp, hc, nofun, fun _ => hq, fun hjoined => absurd (hj hjoined) nofun⟩
  | pop hs hq =>
    rw [hs] at hc hj
    exact ⟨hp, hc, nofun, nofun, fun hjoined => absurd (hj hjoined) nofun⟩
  | stop hs =>
    rw [hs] at hboth
    have hidle : ¬ s.producer.Holds := fun hhold => hboth hhold trivial
    exact ⟨⟨fun hhold => absurd hhold hidle, nofun⟩, ⟨False.elim, nofun⟩, nofun, nofun, fun _ => rfl⟩
  | unlock hs =>
    rw [hs] at hj hboth
    have hidle : ¬ s.producer.Holds := fun hhold => hboth hhold trivial
    exact ⟨⟨fun hhold => absurd hhold hidle, nofun⟩, ⟨False.elim, nofun⟩, nofun, nofun,
      fun hjoined => absurd (hj hjoined) nofun⟩
  | consume hs =>
    rw [hs] at hc hj
    exact ⟨hp, hc, nofun, nofun, fun hjoined => absurd (hj hjoined) nofun⟩

theorem Guarded.wakeup (h : Guarded s) (hs : s.consumer = .waiting) :
    Guarded { s with consumer := .lock } := by
  obtain ⟨hp, hc, _, _, hj⟩ := h
  rw [hs] at hc hj
  exact ⟨hp, hc, nofun, nofun, fun hjoined => absurd (hj hjoined) nofun⟩

/-! ## The items -/

/-- The producer has not met its last item yet. -/
def ProducerPoint.InLoop : ProducerPoint α → Prop
  | .running | .lock _ false | .push _ false | .notify false | .unlock false => True
  | .lock _ true | .push _ true | .pushEnd | .notify true | .unlock true | .join | .joined => False

/-- What the producer has made and not yet put into the queue. -/
def ProducerPoint.unsent : ProducerPoint α → List (Option α)
  | .lock a false | .push a false => [some a]
  | .lock a true | .push a true => [some a, none]
  | .pushEnd => [none]
  | .running | .notify _ | .unlock _ | .join | .joined => []

/-- What a producer with the variables `p` is going to put into the queue; `q` is what its variables
become. -/
inductive Coming (sys : System P α σ) (q : P) (point : ProducerPoint α) :
    P → List (Option α) → Prop where
  | inLoop {p : P} {as : List α} (hpoint : point.InLoop) (h : sys.Produces p as q) :
    Coming sys q point p (point.unsent ++ (as.map some ++ [none]))
  | behind (hpoint : ¬ point.InLoop) : Coming sys q point q point.unsent

/-- Every item is consumed, in the hand of the consumer, in the queue, or still to come. -/
def Accounted (sys : System P α σ) (result : σ) (as : List α) (q : P) (s : State P α σ) : Prop :=
  ∃ (consumed : List α) (coming : List (Option α)), Coming sys q s.producer s.source coming ∧
    s.result = consumed.foldl sys.consume result ∧
    consumed.map some ++ (s.consumer.inHand ++ (s.queue ++ coming)) = as.map some ++ [none]

variable {result : σ} {as : List α} {p q : P}

theorem Accounted.start (h : sys.Produces p as q) :
    Accounted sys result as q { source := p, result := result } :=
  ⟨[], _, .inLoop trivial h, rfl, rfl⟩

/-- What a producer produces is determined by what it does next. -/
theorem produces_go {p' : P} (h : sys.produce p = .go p') (hprod : sys.Produces p as q) :
    sys.Produces p' as q := by
  cases hprod with
  | go h' hrest =>
    rw [h] at h'
    cases h'
    exact hrest
  | item h' => exact absurd (h.symm.trans h') nofun
  | last h' => exact absurd (h.symm.trans h') nofun

theorem produces_item {a : α} {p' : P} (h : sys.produce p = .item a p')
    (hprod : sys.Produces p as q) : ∃ rest, as = a :: rest ∧ sys.Produces p' rest q := by
  cases hprod with
  | go h' => exact absurd (h.symm.trans h') nofun
  | item h' hrest =>
    rw [h] at h'
    cases h'
    exact ⟨_, rfl, hrest⟩
  | last h' => exact absurd (h.symm.trans h') nofun

theorem produces_last {a : α} {p' : P} (h : sys.produce p = .last a p')
    (hprod : sys.Produces p as q) : as = [a] ∧ p' = q := by
  cases hprod with
  | go h' => exact absurd (h.symm.trans h') nofun
  | item h' => exact absurd (h.symm.trans h') nofun
  | last h' =>
    rw [h] at h'
    cases h'
    exact ⟨rfl, rfl⟩

theorem Coming.produces {coming : List (Option α)} {point : ProducerPoint α}
    (h : Coming sys q point p coming) (hpoint : point.InLoop) :
    ∃ as, sys.Produces p as q ∧ coming = point.unsent ++ (as.map some ++ [none]) := by
  cases h with
  | inLoop _ hprod => exact ⟨_, hprod, rfl⟩
  | behind hbehind => exact absurd hpoint hbehind

theorem Coming.ended {coming : List (Option α)} {point : ProducerPoint α}
    (h : Coming sys q point p coming) (hpoint : ¬ point.InLoop) : p = q ∧ coming = point.unsent := by
  cases h with
  | inLoop hloop _ => exact absurd hloop hpoint
  | behind _ => exact ⟨rfl, rfl⟩

/-- Two points between which the producer produces nothing: what it puts into the queue, it had. -/
theorem Coming.move {coming sent queue queue' : List (Option α)} {point point' : ProducerPoint α}
    (h : Coming sys q point p coming) (hloop : point.InLoop ↔ point'.InLoop)
    (hsent : point.unsent = sent ++ point'.unsent) (hqueue : queue' = queue ++ sent) :
    ∃ sent coming', Coming sys q point' p coming' ∧ queue' = queue ++ sent ∧
      coming = sent ++ coming' := by
  by_cases hpoint : point.InLoop
  · obtain ⟨as, hprod, rfl⟩ := h.produces hpoint
    exact ⟨sent, _, .inLoop (hloop.mp hpoint) hprod, hqueue, by rw [hsent, List.append_assoc]⟩
  · obtain ⟨rfl, rfl⟩ := h.ended hpoint
    exact ⟨sent, _, .behind fun hpoint' => hpoint (hloop.mpr hpoint'), hqueue, hsent⟩

/-- A step of the producer moves the front of what comes to the end of the queue. -/
theorem Coming.producerStep {coming : List (Option α)}
    (h : Coming sys q s.producer s.source coming) (hstep : ProducerStep sys s t) :
    ∃ sent coming', Coming sys q t.producer t.source coming' ∧ t.queue = s.queue ++ sent ∧
      coming = sent ++ coming' := by
  have hsame : s.queue = s.queue ++ [] := (List.append_nil _).symm
  cases hstep with
  | go hs hgo =>
    rw [hs] at h
    obtain ⟨as, hprod, rfl⟩ := h.produces trivial
    exact ⟨[], _, .inLoop (by rw [hs]; trivial) (produces_go hgo hprod), hsame, by rw [hs]; rfl⟩
  | item hs hitem =>
    rw [hs] at h
    obtain ⟨as, hprod, rfl⟩ := h.produces trivial
    obtain ⟨rest, rfl, hrest⟩ := produces_item hitem hprod
    exact ⟨[], _, .inLoop trivial hrest, hsame, rfl⟩
  | last hs hlast =>
    rw [hs] at h
    obtain ⟨as, hprod, rfl⟩ := h.produces trivial
    obtain ⟨rfl, rfl⟩ := produces_last hlast hprod
    exact ⟨[], _, .behind id, hsame, rfl⟩
  | @lock a last hs =>
    rw [hs] at h
    cases last with
    | false => exact h.move Iff.rfl rfl hsame
    | true => exact h.move Iff.rfl rfl hsame
  | push hs | pushLast hs | pushEnd hs =>
    rw [hs] at h
    exact h.move Iff.rfl rfl rfl
  | @notify last hs | @wake last hs =>
    rw [hs] at h
    cases last with
    | false => exact h.move Iff.rfl rfl hsame
    | true => exact h.move Iff.rfl rfl hsame
  | unlock hs | unlockLast hs | join hs =>
    rw [hs] at h
    exact h.move Iff.rfl rfl hsame

theorem inHand_eq_nil {point : ConsumerPoint α} (h : point = .waiting) : point.inHand = [] := by
  rw [h]
  rfl

theorem producerStep_result (hstep : ProducerStep sys s t) :
    t.result = s.result ∧ t.consumer.inHand = s.consumer.inHand := by
  cases hstep with
  | wake hs hwait => exact ⟨rfl, (inHand_eq_nil hwait).symm⟩
  | _ => exact ⟨rfl, rfl⟩

theorem Accounted.producerStep (h : Accounted sys result as q s) (hstep : ProducerStep sys s t) :
    Accounted sys result as q t := by
  obtain ⟨consumed, coming, hcoming, hresult, hitems⟩ := h
  obtain ⟨sent, coming', hcoming', hqueue, rfl⟩ := hcoming.producerStep hstep
  obtain ⟨hresult', hhand⟩ := producerStep_result hstep
  refine ⟨consumed, coming', hcoming', hresult'.trans hresult, ?_⟩
  rw [hhand, hqueue, List.append_assoc]
  exact hitems

theorem Accounted.consumerStep (h : Accounted sys result as q s) (hstep : ConsumerStep sys s t) :
    Accounted sys result as q t := by
  obtain ⟨consumed, coming, hcoming, hresult, hitems⟩ := h
  cases hstep with
  | lock hs | wait hs | go hs =>
    rw [hs] at hitems
    exact ⟨consumed, coming, hcoming, hresult, hitems⟩
  | pop hs hq =>
    rw [hs, hq] at hitems
    exact ⟨consumed, coming, hcoming, hresult, hitems⟩
  | stop hs | unlock hs =>
    rw [hs] at hitems
    exact ⟨consumed, coming, hcoming, hresult, hitems⟩
  | @consume a hs =>
    rw [hs] at hitems
    refine ⟨consumed ++ [a], coming, hcoming, ?_, ?_⟩
    · rw [List.foldl_append, ← hresult]
      rfl
    · rw [List.map_append, List.append_assoc]
      exact hitems

theorem Accounted.wakeup (h : Accounted sys result as q s) (hs : s.consumer = .waiting) :
    Accounted sys result as q { s with consumer := .lock } := by
  obtain ⟨consumed, coming, hcoming, hresult, hitems⟩ := h
  rw [inHand_eq_nil hs] at hitems
  exact ⟨consumed, coming, hcoming, hresult, hitems⟩

/-- Nothing comes behind the end mark. -/
theorem eq_of_endMark {xs ys : List α} {rest : List (Option α)}
    (h : xs.map some ++ none :: rest = ys.map some ++ [none]) : xs = ys ∧ rest = [] := by
  induction xs generalizing ys with
  | nil =>
    cases ys with
    | nil => exact ⟨rfl, (List.cons.inj h).2⟩
    | cons y ys => exact absurd (List.cons.inj h).1 nofun
  | cons x xs ih =>
    cases ys with
    | nil => exact absurd (List.cons.inj h).1 nofun
    | cons y ys =>
      obtain ⟨hxy, hrest⟩ := List.cons.inj h
      obtain ⟨rfl, hnil⟩ := ih hrest
      exact ⟨congrArg (· :: xs) (Option.some.inj hxy), hnil⟩

/-- When the consumer has stopped, all items are consumed, in order. -/
theorem Accounted.stopped (h : Accounted sys result as q s) (hs : s.consumer = .stopped) :
    s.result = as.foldl sys.consume result ∧ s.queue = [] ∧ s.source = q ∧ ¬ s.producer.InLoop := by
  obtain ⟨consumed, coming, hcoming, hresult, hitems⟩ := h
  rw [hs] at hitems
  have hmark : consumed.map some ++ none :: (s.queue ++ coming) = as.map some ++ [none] := hitems
  obtain ⟨rfl, hnil⟩ := eq_of_endMark hmark
  obtain ⟨hqueue, rfl⟩ := List.append_eq_nil_iff.mp hnil
  have hpoint : ¬ s.producer.InLoop := by
    intro hloop
    obtain ⟨as, -, hcoming⟩ := hcoming.produces hloop
    exact absurd hcoming (by simp)
  exact ⟨hresult, hqueue, (hcoming.ended hpoint).1, hpoint⟩

/-! ## Progress -/

theorem producerStep_of_holds (sys : System P α σ) (h : s.producer.Holds) :
    (sys.producerStep s).isSome = true := by
  cases hs : s.producer with
  | push | pushEnd | notify | unlock => simp only [System.producerStep, hs, Option.isSome_some]
  | running | lock | join | joined => exact absurd h (by rw [hs]; exact id)

theorem consumerStep_of_holds (sys : System P α σ) (h : s.consumer.Holds)
    (hpop : s.consumer = .pop → s.queue ≠ []) : (sys.consumerStep s).isSome = true := by
  cases hs : s.consumer with
  | test =>
    simp only [System.consumerStep, hs]
    split <;> rfl
  | pop =>
    obtain ⟨item, queue, hq⟩ := List.exists_cons_of_ne_nil (hpop hs)
    simp only [System.consumerStep, hs, hq, Option.isSome_some]
  | taken item =>
    cases item with
    | none | some => simp only [System.consumerStep, hs, Option.isSome_some]
  | lock | waiting | consuming | stopped => exact absurd h (by rw [hs]; exact id)

/-- A consumer that sleeps while the producer waits for it would have missed the end mark. -/
theorem not_waiting_of_join (hg : Guarded s) (ha : Accounted sys result as q s)
    (hs : s.producer = .join) : s.consumer ≠ .waiting := by
  intro hc
  obtain ⟨consumed, coming, hcoming, -, hitems⟩ := ha
  have hqueue : s.queue = [] := by
    rcases hg.waiting hc with hqueue | hnotifies
    · exact hqueue
    · exact absurd hnotifies (by rw [hs]; exact id)
  rw [hs] at hcoming
  obtain ⟨-, rfl⟩ := hcoming.ended id
  rw [hc, hqueue] at hitems
  have hmark : consumed.map some ++ [] = as.map some ++ [none] := hitems
  have hmem : none ∈ consumed.map some ++ [] := by
    rw [hmark]
    exact List.mem_append_right _ (List.mem_singleton_self _)
  exact absurd hmem (by simp)

/-- Until the producer has joined the consumer, one of them can make a step. -/
theorem progress (hg : Guarded s) (ha : Accounted sys result as q s) (hs : s.producer ≠ .joined) :
    (sys.producerStep s).isSome = true ∨ (sys.consumerStep s).isSome = true := by
  by_cases hp : s.producer.Holds
  · exact .inl (producerStep_of_holds sys hp)
  by_cases hc : s.consumer.Holds
  · exact .inr (consumerStep_of_holds sys hc hg.pop)
  have hfree : s.mutex = none := by
    cases hm : s.mutex with
    | none => rfl
    | some thread =>
      cases thread with
      | producer => exact absurd (hg.producer.mpr hm) hp
      | consumer => exact absurd (hg.consumer.mpr hm) hc
  cases hpoint : s.producer with
  | running =>
    left
    simp only [System.producerStep, hpoint]
    split <;> rfl
  | lock => exact .inl (by simp [System.producerStep, hpoint, State.acquire, hfree])
  | push | pushEnd | notify | unlock => exact absurd trivial (by rwa [hpoint] at hp)
  | joined => exact absurd hpoint hs
  | join =>
    cases hcons : s.consumer with
    | lock => exact .inr (by simp [System.consumerStep, hcons, State.acquire, hfree])
    | test | pop | taken => exact absurd trivial (by rwa [hcons] at hc)
    | waiting => exact absurd hcons (not_waiting_of_join hg ha hpoint)
    | consuming => exact .inr (by simp only [System.consumerStep, hcons, Option.isSome_some])
    | stopped => exact .inl (by simp only [System.producerStep, hpoint, hcons, Option.isSome_some])

/-! ## The number of steps -/

/-- Every `go` and every `item` lowers the rank. -/
def Ranked (sys : System P α σ) (rank : P → Nat) : Prop :=
  ∀ p, match sys.produce p with
    | .go p' | .item _ p' => rank p' < rank p
    | .last _ _ => True

/-- How many steps a point stands for, the steps after a notification and those with the items
included. -/
def ProducerPoint.cost (rank : Nat) : ProducerPoint α → Nat
  | .running => 14 * rank + 22
  | .lock _ false => 14 * rank + 35
  | .push _ false => 14 * rank + 34
  | .notify false => 14 * rank + 27
  | .unlock false => 14 * rank + 23
  | .lock _ true => 21
  | .push _ true => 20
  | .pushEnd => 13
  | .notify true => 6
  | .unlock true => 2
  | .join => 1
  | .joined => 0

def ConsumerPoint.cost : ConsumerPoint α → Nat
  | .lock => 3
  | .test => 2
  | .pop => 1
  | .taken _ => 5
  | .consuming _ => 4
  | .waiting | .stopped => 0

def State.cost (rank : P → Nat) (s : State P α σ) : Nat :=
  s.producer.cost (rank s.source) + 6 * s.queue.length + s.consumer.cost

theorem cost_producerStep {rank : P → Nat} (hrank : Ranked sys rank) (hstep : ProducerStep sys s t) :
    t.cost rank + 1 ≤ s.cost rank := by
  have hsource := hrank s.source
  unfold State.cost
  cases hstep with
  | go hs h | item hs h | last hs h =>
    rw [h] at hsource
    simp only [hs, ProducerPoint.cost]
    omega
  | @lock a last hs =>
    cases last <;> simp only [hs, ProducerPoint.cost] <;> omega
  | push hs | pushLast hs | pushEnd hs =>
    simp only [hs, ProducerPoint.cost, List.length_append, List.length_singleton]
    omega
  | @notify last hs =>
    cases last <;> simp only [hs, ProducerPoint.cost] <;> omega
  | @wake last hs hwait =>
    cases last <;> simp only [hs, hwait, ProducerPoint.cost, ConsumerPoint.cost] <;> omega
  | unlock hs | unlockLast hs | join hs =>
    simp only [hs, ProducerPoint.cost]
    omega

theorem cost_consumerStep {rank : P → Nat} (hstep : ConsumerStep sys s t) :
    t.cost rank + 1 ≤ s.cost rank := by
  unfold State.cost
  cases hstep with
  | lock hs | wait hs | go hs | stop hs | unlock hs | consume hs =>
    simp only [hs, ConsumerPoint.cost]
    omega
  | pop hs hq =>
    simp only [hs, hq, ConsumerPoint.cost, List.length_cons]
    omega

/-! ## Runs -/

/-- What every state has that can be reached. -/
structure Inv (sys : System P α σ) (result : σ) (as : List α) (q : P) (s : State P α σ) : Prop where
  guarded : Guarded s
  accounted : Accounted sys result as q s

theorem Inv.start (h : sys.Produces p as q) :
    Inv sys result as q { source := p, result := result } :=
  ⟨Guarded.start p result, Accounted.start h⟩

theorem wakeup_eq_some (h : sys.step .wakeup s = some t) :
    s.consumer = .waiting ∧ t = { s with consumer := .lock } := by
  simp only [System.step] at h
  split at h <;> cases h
  exact ⟨‹_›, rfl⟩

theorem Inv.step {a : System.Action} (h : Inv sys result as q s) (hstep : sys.step a s = some t) :
    Inv sys result as q t := by
  obtain ⟨hg, ha⟩ := h
  cases a with
  | producer =>
    have hstep' := ProducerStep.of_eq hstep
    exact ⟨hg.producerStep hstep', ha.producerStep hstep'⟩
  | consumer =>
    have hstep' := ConsumerStep.of_eq hstep
    exact ⟨hg.consumerStep hstep', ha.consumerStep hstep'⟩
  | wakeup =>
    obtain ⟨hs, rfl⟩ := wakeup_eq_some hstep
    exact ⟨hg.wakeup hs, ha.wakeup hs⟩

variable {r : List (System.Action × State P α σ)}

theorem Inv.run (h : Inv sys result as q s) (hrun : sys.Run s r t) : Inv sys result as q t :=
  hrun.invariant (fun _ _ _ hs hstep => hs.step hstep) h

/-- Once the producer has joined the consumer, the items are consumed and everything is as it was
before. -/
theorem Inv.joined (h : Inv sys result as q s) (hs : s.producer = .joined) :
    s.result = as.foldl sys.consume result ∧ s.source = q ∧ s.queue = [] ∧ s.mutex = none := by
  have hstopped := h.guarded.joined hs
  obtain ⟨hresult, hqueue, hsource, -⟩ := h.accounted.stopped hstopped
  refine ⟨hresult, hsource, hqueue, ?_⟩
  cases hm : s.mutex with
  | none => rfl
  | some thread =>
    cases thread with
    | producer =>
      have hhold := h.guarded.producer.mpr hm
      exact absurd hhold (by rw [hs]; exact id)
    | consumer =>
      have hhold := h.guarded.consumer.mpr hm
      exact absurd hhold (by rw [hstopped]; exact id)

/-- What a step may add to the cost. -/
def System.Action.cost : System.Action → Nat
  | .producer | .consumer => 0
  | .wakeup => 4

theorem sum_cost (r : List (System.Action × State P α σ)) :
    (r.map fun x => x.1.cost).sum = 4 * System.wakeups r := by
  induction r with
  | nil => rfl
  | cons x r ih =>
    rw [List.map_cons, List.sum_cons, ih]
    unfold System.wakeups
    rw [List.countP_cons]
    cases hx : x.1 <;> simp [System.Action.cost, Nat.mul_add, Nat.add_comm]

theorem cost_step {rank : P → Nat} {a : System.Action} (hrank : Ranked sys rank)
    (hstep : sys.step a s = some t) : t.cost rank + 1 ≤ s.cost rank + a.cost := by
  cases a with
  | producer => exact cost_producerStep hrank (ProducerStep.of_eq hstep)
  | consumer => exact cost_consumerStep (ConsumerStep.of_eq hstep)
  | wakeup =>
    obtain ⟨hs, rfl⟩ := wakeup_eq_some hstep
    simp only [State.cost, hs, ConsumerPoint.cost, System.Action.cost]
    omega

/-- The threads come to an end, unless `wait` keeps returning. -/
theorem run_length_le {rank : P → Nat} (hrank : Ranked sys rank)
    (hrun : sys.Run { source := p, result := result } r t) :
    r.length ≤ 14 * rank p + 25 + 4 * System.wakeups r := by
  have hstep : ∀ (s : State P α σ) (a : System.Action) (t : State P α σ), True →
      sys.step a s = some t → True ∧ t.cost rank + 1 ≤ s.cost rank + a.cost :=
    fun _ _ _ _ hstep => ⟨trivial, cost_step hrank hstep⟩
  have hle := hrun.length_add_le (State.cost rank) System.Action.cost hstep trivial
  have hstart : ({ source := p, result := result } : State P α σ).cost rank = 14 * rank p + 25 := rfl
  rw [sum_cost, hstart] at hle
  omega

/-- A run that the two threads cannot continue has come to its end. -/
theorem Inv.joined_of_stuck (h : Inv sys result as q s) (hp : sys.producerStep s = none)
    (hc : sys.consumerStep s = none) : s.producer = .joined := by
  by_contra hs
  rcases progress h.guarded h.accounted hs with hstep | hstep
  · rw [hp] at hstep
    cases hstep
  · rw [hc] at hstep
    cases hstep

/-- What the producer keeps of its variables, whatever the consumer does. -/
theorem run_source {Kept : P → Prop} (hkept : ∀ p, Kept p → Kept (sys.produce p).next)
    (hs : Kept s.source) (hrun : sys.Run s r t) : Kept t.source := by
  induction hrun with
  | nil _ => exact hs
  | @cons s s₁ _ a _ hstep _ ih =>
    refine ih ?_
    cases a with
    | producer =>
      have hnext := hkept s.source hs
      cases ProducerStep.of_eq hstep with
      | go _ h | item _ h | last _ h => rwa [h] at hnext
      | _ => exact hs
    | consumer => cases ConsumerStep.of_eq hstep <;> exact hs
    | wakeup =>
      obtain ⟨-, rfl⟩ := wakeup_eq_some hstep
      exact hs

/-- The states that a schedule leads to are a run. -/
theorem run_of_execute {schedule : List System.Action}
    (h : sys.execute s schedule = some (r, t)) : sys.Run s r t := by
  induction schedule generalizing s r with
  | nil =>
    cases h
    exact .nil _
  | cons a schedule ih =>
    simp only [System.execute, Option.bind_eq_bind, Option.bind_eq_some_iff] at h
    obtain ⟨s₁, hstep, ⟨r₁, t₁⟩, hrest, heq⟩ := h
    cases heq
    exact .cons hstep (ih hrest)

end WorkQueue

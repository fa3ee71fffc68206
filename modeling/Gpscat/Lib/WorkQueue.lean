import Gpscat.Lib.Simulation

/-!
# A work queue between two threads

One thread produces items and puts them into a queue; another one takes them out and consumes them. A
mutex protects the queue. The consumer waits on a condition variable while the queue is empty. An end
mark (`none`) behind the last item stops it, and the producer waits for that.

A step is one action of one thread. `wait` may also return without a notification.
-/

namespace WorkQueue

/-- What a producer does next: something of its own, or it has an item. -/
inductive Produce (P α : Type) where
  | go (p : P)
  | item (a : α) (p : P)
  | last (a : α) (p : P)

/-- The variables afterwards. -/
def Produce.next {P α : Type} : Produce P α → P
  | .go p | .item _ p | .last _ p => p

/-- What the two threads do apart from the queue. -/
structure System (P α σ : Type) where
  produce : P → Produce P α
  consume : σ → α → σ

inductive Thread where
  | producer
  | consumer
  deriving Repr, DecidableEq

/-- Where the producer is. The flag is set for the last item. -/
inductive ProducerPoint (α : Type) where
  | running
  | lock (a : α) (last : Bool)
  | push (a : α) (last : Bool)
  /-- The last item is in the queue, the end mark is not. -/
  | pushEnd
  | notify (last : Bool)
  | unlock (last : Bool)
  | join
  | joined
  deriving Repr, DecidableEq

/-- Where the consumer is. -/
inductive ConsumerPoint (α : Type) where
  /-- Before it takes the mutex, also when `wait` returns. -/
  | lock
  /-- The test whether it has to wait. -/
  | test
  | waiting
  | pop
  /-- With what it has taken out of the queue. -/
  | taken (item : Option α)
  | consuming (a : α)
  | stopped
  deriving Repr, DecidableEq

variable {P α σ : Type}

/-- The producer is between `lock` and `unlock`. -/
def ProducerPoint.Holds : ProducerPoint α → Prop
  | .push _ _ | .pushEnd | .notify _ | .unlock _ => True
  | .running | .lock _ _ | .join | .joined => False

/-- The consumer is between `lock` and `unlock`, and `wait` does not sleep. -/
def ConsumerPoint.Holds : ConsumerPoint α → Prop
  | .test | .pop | .taken _ => True
  | .lock | .waiting | .consuming _ | .stopped => False

/-- What the consumer has in hand. -/
def ConsumerPoint.inHand : ConsumerPoint α → List (Option α)
  | .taken item => [item]
  | .consuming a => [some a]
  | .stopped => [none]
  | .lock | .test | .waiting | .pop => []

structure State (P α σ : Type) where
  producer : ProducerPoint α := .running
  consumer : ConsumerPoint α := .lock
  /-- The variables of the producer. -/
  source : P
  queue : List (Option α) := []
  mutex : Option Thread := none
  /-- The variables of the consumer. -/
  result : σ
  deriving Repr, DecidableEq

namespace State

def acquire (t : Thread) (s : State P α σ) : Option (State P α σ) :=
  if s.mutex = none then some { s with mutex := some t } else none

def release (s : State P α σ) : State P α σ := { s with mutex := none }

/-- `notify_one`: nothing happens when nobody waits. -/
def notifyOne (s : State P α σ) : State P α σ :=
  match s.consumer with
  | .waiting => { s with consumer := .lock }
  | _ => s

end State

namespace System

variable (sys : System P α σ)

def producerStep (s : State P α σ) : Option (State P α σ) :=
  match s.producer with
  | .running =>
    match sys.produce s.source with
    | .go p => some { s with source := p }
    | .item a p => some { s with source := p, producer := .lock a false }
    | .last a p => some { s with source := p, producer := .lock a true }
  | .lock a last => (s.acquire .producer).map fun s => { s with producer := .push a last }
  | .push a last =>
    some { s with
      queue := s.queue ++ [some a]
      producer := if last then .pushEnd else .notify false }
  | .pushEnd => some { s with queue := s.queue ++ [none], producer := .notify true }
  | .notify last => some { s.notifyOne with producer := .unlock last }
  | .unlock last => some { s.release with producer := if last then .join else .running }
  | .join =>
    match s.consumer with
    | .stopped => some { s with producer := .joined }
    | _ => none
  | .joined => none

def consumerStep (s : State P α σ) : Option (State P α σ) :=
  match s.consumer with
  | .lock => (s.acquire .consumer).map fun s => { s with consumer := .test }
  | .test =>
    if s.queue.isEmpty then some { s.release with consumer := .waiting }
    else some { s with consumer := .pop }
  | .waiting => none
  | .pop =>
    match s.queue with
    | [] => none
    | item :: queue => some { s with queue := queue, consumer := .taken item }
  | .taken none => some { s.release with consumer := .stopped }
  | .taken (some a) => some { s.release with consumer := .consuming a }
  | .consuming a => some { s with result := sys.consume s.result a, consumer := .lock }
  | .stopped => none

/-- What makes a step. -/
inductive Action where
  | producer
  | consumer
  /-- `wait` returns without a notification. -/
  | wakeup
  deriving Repr, DecidableEq

def step (a : Action) (s : State P α σ) : Option (State P α σ) :=
  match a with
  | .producer => sys.producerStep s
  | .consumer => sys.consumerStep s
  | .wakeup =>
    match s.consumer with
    | .waiting => some { s with consumer := .lock }
    | _ => none

/-- A run of the two threads, however they are interleaved. -/
abbrev Run (s : State P α σ) (r : List (Action × State P α σ)) (t : State P α σ) : Prop :=
  Simulation.Run (fun s a t => sys.step a s = some t) s r t

/-- The run with the given actions, and the state it leads to. -/
def execute (s : State P α σ) : List Action → Option (List (Action × State P α σ) × State P α σ)
  | [] => some ([], s)
  | a :: schedule => do
    let s₁ ← sys.step a s
    let (r, t) ← execute s₁ schedule
    some ((a, s₁) :: r, t)

/-- How often `wait` returns without a notification. -/
def wakeups (r : List (Action × State P α σ)) : Nat := r.countP (·.1 == .wakeup)

/-- The items that the producer produces from `p` on, and what becomes of its variables. -/
inductive Produces : P → List α → P → Prop where
  | go {p p' q : P} {as : List α} (h : sys.produce p = .go p') (hrest : Produces p' as q) :
    Produces p as q
  | item {p p' q : P} {a : α} {as : List α} (h : sys.produce p = .item a p')
    (hrest : Produces p' as q) : Produces p (a :: as) q
  | last {p q : P} {a : α} (h : sys.produce p = .last a q) : Produces p [a] q

end System

end WorkQueue

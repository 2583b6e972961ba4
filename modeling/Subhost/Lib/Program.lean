import Subhost.Lib.Run
/-!
# Programs that ask, amid others

A client is a program that asks for answers and computes with them: `Prog E α`, where `E β` are the requests with
answers in `β`. Its requests are answered one at a time by a `Setting`, and before each of them the others may do
anything: a schedule (`Turn`) lists what they do, and what the outside world decides about the request itself. A run
is a function of the program, the schedule and the state, so a statement for all schedules is about every
interleaving. What is worth noting of the requests and of what was decided about them is its record.

`Setting.Ensures` is the triple of this logic: from states in `P`, whatever the schedule, the program ends with a
result and a state in `Q`. A request needs that `P` survives what the others do; programs compose by `bind`, and by
`andThen` where the first of them may fail. `Setting.Hears` is the same with the record of the run, which is cut where
the program is.
-/
namespace Program

/-- A program whose requests are of the kinds in `E`. -/
inductive Prog (E : Type → Type) (α : Type) : Type 1 where
  | done (value : α)
  | ask {β : Type} (request : E β) (next : β → Prog E α)

namespace Prog

variable {E F : Type → Type} {α β γ : Type}

def bind (p : Prog E α) (f : α → Prog E β) : Prog E β :=
  match p with
  | .done a => f a
  | .ask request next => .ask request fun b => (next b).bind f

instance : Monad (Prog E) where
  pure := .done
  bind := .bind

/-- The program of one request. -/
def call (request : E β) : Prog E β := .ask request .done

/-- A request in a program that may fail. -/
def access {ε : Type} (request : E β) : ExceptT ε (Prog E) β := .mk (.ask request fun b => .done (.ok b))

/-- A computation without requests that may fail. -/
def attempt {ε : Type} (x : Except ε α) : ExceptT ε (Prog E) α := .mk (.done x)

@[simp]
theorem pure_eq (a : α) : (pure a : Prog E α) = .done a := rfl

@[simp]
theorem done_bind (a : α) (f : α → Prog E β) : (Prog.done a >>= f) = f a := rfl

@[simp]
theorem ask_bind (request : E β) (next : β → Prog E α) (f : α → Prog E γ) :
    (Prog.ask request next >>= f) = .ask request fun b => next b >>= f := rfl

theorem bind_assoc (p : Prog E α) (f : α → Prog E β) (g : β → Prog E γ) :
    (p >>= f >>= g) = p >>= fun a => f a >>= g := by
  induction p with
  | done a => rfl
  | ask request next ih =>
    rw [ask_bind, ask_bind, ask_bind]
    congr 1
    funext b
    exact ih b

end Prog

/-- Before one request: what the others do, and what the outside world decides about the request. -/
structure Turn (ι φ : Type) where
  before : List ι
  choice : φ

/-- The state that programs share: how others change it, how a request is answered, and what is noted of it. -/
structure Setting (E : Type → Type) (σ ι φ κ : Type) where
  step : σ → ι → σ
  answer : {β : Type} → E β → φ → σ → β × σ
  note : {β : Type} → E β → φ → List κ

namespace Setting

variable {E : Type → Type} {σ ι φ κ α β : Type} (W : Setting E σ ι φ κ)

/-- What the others do. -/
def others (s : σ) (events : List ι) : σ := events.foldl W.step s

/-- The request when its turn comes. -/
def serve (request : E β) (turn : Turn ι φ) (s : σ) : β × σ := W.answer request turn.choice (W.others s turn.before)

/-- A program's run: its result and the state it leaves. -/
def exec : Prog E α → (Nat → Turn ι φ) → σ → α × σ
  | .done a, _, s => (a, s)
  | .ask request next, turns, s =>
    let (b, s) := W.serve request (turns 0) s
    exec (next b) (fun n => turns (n + 1)) s

/-- The record of a run. -/
def record : Prog E α → (Nat → Turn ι φ) → σ → List κ
  | .done _, _, _ => []
  | .ask request next, turns, s =>
    let (b, s) := W.serve request (turns 0) s
    W.note request (turns 0).choice ++ record (next b) (fun n => turns (n + 1)) s

/-- From `P`, whatever turns of the kind `C` come, the program ends in `Q`, which may depend on the record. -/
def Hears (C : Turn ι φ → Prop) (P : σ → Prop) (p : Prog E α) (Q : List κ → α → σ → Prop) : Prop :=
  ∀ turns, (∀ n, C (turns n)) → ∀ s, P s → Q (W.record p turns s) (W.exec p turns s).1 (W.exec p turns s).2

/-- From `P`, whatever turns of the kind `C` come, the program ends in `Q`. -/
def Ensures (C : Turn ι φ → Prop) (P : σ → Prop) (p : Prog E α) (Q : α → σ → Prop) : Prop := W.Hears C P p fun _ => Q

variable {W} {C : Turn ι φ → Prop} {P P' : σ → Prop}

theorem others_invariant {D : ι → Prop} (hstep : ∀ s i, D i → P s → P (W.step s i)) {s : σ} (hs : P s) {events : List ι}
    (hevents : ∀ i ∈ events, D i) : P (W.others s events) := by
  induction events generalizing s with
  | nil => exact hs
  | cons i events ih =>
    obtain ⟨hi, hevents⟩ := List.forall_mem_cons.mp hevents
    exact ih (hstep s i hi hs) hevents

/-! ## With the record -/

theorem Hears.done {a : α} {Q : List κ → α → σ → Prop} (h : ∀ s, P s → Q [] a s) : W.Hears C P (.done a) Q :=
  fun _ _ s hs => h s hs

/-- **A request**: its answer, after whatever the others did; what is noted of it comes before the rest. -/
theorem Hears.ask {request : E β} {next : β → Prog E α} {M : φ → β → σ → Prop} {Q : List κ → α → σ → Prop}
    (hserve : ∀ turn s, C turn → P s → M turn.choice (W.serve request turn s).1 (W.serve request turn s).2)
    (hnext : ∀ choice b, W.Hears C (M choice b) (next b) fun l => Q (W.note request choice ++ l)) :
    W.Hears C P (.ask request next) Q :=
  fun turns hturns s hs => hnext _ _ _ (fun n => hturns (n + 1)) _ (hserve (turns 0) s (hturns 0) hs)

theorem Hears.call {request : E β} {Q : List κ → β → σ → Prop}
    (hserve : ∀ turn s, C turn → P s →
      Q (W.note request turn.choice) (W.serve request turn s).1 (W.serve request turn s).2) :
    W.Hears C P (Prog.call request) Q := by
  refine .ask (M := fun choice => Q (W.note request choice)) hserve fun choice b => .done fun s hs => ?_
  rwa [List.append_nil]

theorem Hears.weaken {p : Prog E α} {Q Q' : List κ → α → σ → Prop} (h : W.Hears C P' p Q) (hpre : ∀ s, P s → P' s)
    (hpost : ∀ l a s, Q l a s → Q' l a s) : W.Hears C P p Q' :=
  fun turns hturns s hs => hpost _ _ _ (h turns hturns s (hpre s hs))

/-- What the precondition says about other things than the state. -/
theorem Hears.assume {φ : Prop} {p : Prog E α} {Q : List κ → α → σ → Prop} (h : φ → W.Hears C P p Q) :
    W.Hears C (fun s => φ ∧ P s) p Q :=
  fun turns hturns s hs => h hs.1 turns hturns s hs.2

/-- **Sequence**: the records follow each other. -/
theorem Hears.bind {p : Prog E α} {f : α → Prog E β} {M : List κ → α → σ → Prop} {Q : List κ → β → σ → Prop}
    (hp : W.Hears C P p M) (hf : ∀ l a, W.Hears C (M l a) (f a) fun l' => Q (l ++ l')) : W.Hears C P (p >>= f) Q := by
  intro turns hturns s hs
  have hrun := hp turns hturns s hs
  clear hp hs
  induction p generalizing turns s M Q with
  | done a => exact hf [] a turns hturns s hrun
  | ask request next ih =>
    -- what is noted of the first request stands before both records
    have hnext := @ih _ (fun l => M (W.note request (turns 0).choice ++ l))
      (fun l => Q (W.note request (turns 0).choice ++ l)) ?_ (fun n => turns (n + 1)) (fun n => hturns (n + 1)) _ hrun
    · exact hnext
    · intro l a
      simpa only [List.append_assoc] using hf (W.note request (turns 0).choice ++ l) a

/-- What holds of a result that may be an error. -/
def OkThen {ε : Type} (bad : ε → σ → Prop) (good : α → σ → Prop) : Except ε α → σ → Prop
  | .error e, s => bad e s
  | .ok a, s => good a s

theorem OkThen.imp_bad {ε : Type} {bad bad' : ε → σ → Prop} {good : α → σ → Prop} {r : Except ε α} {s : σ}
    (h : OkThen bad good r s) (hbad : ∀ e, bad e s → bad' e s) : OkThen bad' good r s := by
  cases r with
  | error e => exact hbad e h
  | ok a => exact h

/-- **Sequence of programs that may fail**: an error ends the whole. What is said of an error with the record of the
second must hold with what came before it, too. -/
theorem Hears.andThen {ε β : Type} {p : ExceptT ε (Prog E) α} {f : α → ExceptT ε (Prog E) β}
    {bad : List κ → ε → σ → Prop} {M : α → σ → Prop} {Q : β → σ → Prop}
    (hlater : ∀ l l' e s, bad l' e s → bad (l ++ l') e s) (hp : W.Hears C P p.run fun l => OkThen (bad l) M)
    (hf : ∀ a, W.Hears C (M a) (f a).run fun l => OkThen (bad l) Q) :
    W.Hears C P (p >>= f).run fun l => OkThen (bad l) Q := by
  refine hp.bind ?_
  rintro l (e | a)
  · refine .done fun s hs => ?_
    rwa [List.append_nil]
  · exact (hf a).weaken (fun _ h => h) fun l' r s h => h.imp_bad fun e => hlater l l' e s

/-! ## Without it -/

theorem Ensures.done {a : α} {Q : α → σ → Prop} (h : ∀ s, P s → Q a s) : W.Ensures C P (.done a) Q := Hears.done h

theorem Ensures.ask {request : E β} {next : β → Prog E α} {M : β → σ → Prop} {Q : α → σ → Prop}
    (hserve : ∀ turn s, C turn → P s → M (W.serve request turn s).1 (W.serve request turn s).2)
    (hnext : ∀ b, W.Ensures C (M b) (next b) Q) : W.Ensures C P (.ask request next) Q :=
  Hears.ask (M := fun _ => M) hserve fun _ => hnext

theorem Ensures.call {request : E β} {Q : β → σ → Prop}
    (hserve : ∀ turn s, C turn → P s → Q (W.serve request turn s).1 (W.serve request turn s).2) :
    W.Ensures C P (Prog.call request) Q :=
  .ask hserve fun _ => .done fun _ h => h

theorem Ensures.weaken {p : Prog E α} {Q Q' : α → σ → Prop} (h : W.Ensures C P' p Q) (hpre : ∀ s, P s → P' s)
    (hpost : ∀ a s, Q a s → Q' a s) : W.Ensures C P p Q' :=
  Hears.weaken h hpre fun _ => hpost

/-- One schedule from one state. -/
theorem ensures_exec (p : Prog E α) (turn : Turn ι φ) (s : σ) :
    W.Ensures (· = turn) (· = s) p fun a s' => (a, s') = W.exec p (fun _ => turn) s := by
  rintro turns hturns s rfl
  rw [show turns = fun _ => turn from funext hturns]

theorem Ensures.assume {φ : Prop} {p : Prog E α} {Q : α → σ → Prop} (h : φ → W.Ensures C P p Q) :
    W.Ensures C (fun s => φ ∧ P s) p Q :=
  Hears.assume h

theorem Ensures.bind {p : Prog E α} {f : α → Prog E β} {M : α → σ → Prop} {Q : β → σ → Prop}
    (hp : W.Ensures C P p M) (hf : ∀ a, W.Ensures C (M a) (f a) Q) : W.Ensures C P (p >>= f) Q :=
  Hears.bind hp fun _ => hf

theorem Ensures.access {ε : Type} {request : E β} {bad : ε → σ → Prop} {Q : β → σ → Prop}
    (hserve : ∀ turn s, C turn → P s → Q (W.serve request turn s).1 (W.serve request turn s).2) :
    W.Ensures C P (Prog.access request : ExceptT ε (Prog E) β).run (OkThen bad Q) :=
  .ask hserve fun _ => .done fun _ h => h

theorem Ensures.attempt {ε : Type} {x : Except ε α} {bad : ε → σ → Prop} {Q : α → σ → Prop}
    (h : ∀ s, P s → OkThen bad Q x s) : W.Ensures C P (Prog.attempt x : ExceptT ε (Prog E) α).run (OkThen bad Q) :=
  .done h

theorem Ensures.pure {ε : Type} {a : α} {bad : ε → σ → Prop} {Q : α → σ → Prop} (h : ∀ s, P s → Q a s) :
    W.Ensures C P (Pure.pure a : ExceptT ε (Prog E) α).run (OkThen bad Q) :=
  .done h

theorem Ensures.andThen {ε β : Type} {p : ExceptT ε (Prog E) α} {f : α → ExceptT ε (Prog E) β} {bad : ε → σ → Prop}
    {M : α → σ → Prop} {Q : β → σ → Prop} (hp : W.Ensures C P p.run (OkThen bad M))
    (hf : ∀ a, W.Ensures C (M a) (f a).run (OkThen bad Q)) : W.Ensures C P (p >>= f).run (OkThen bad Q) :=
  Hears.andThen (fun _ _ _ _ h => h) hp hf

end Setting
end Program

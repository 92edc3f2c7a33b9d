import Mathlib.Data.List.Basic
import Mathlib.Tactic.Common

namespace EvmAssigner

/-- A computation over a state `σ` that leaves events `ε` behind, which it cannot read back, and
that may not come to an end. -/
def Action (ε σ α : Type) : Type := σ → List ε × Option (α × σ)

namespace Action
variable {ε ε' σ τ α β γ : Type}

def pure (a : α) : Action ε σ α := fun s => ([], some (a, s))

def bind (m : Action ε σ α) (f : α → Action ε σ β) : Action ε σ β := fun s =>
  match m s with
  | (es, none) => (es, none)
  | (es, some (a, s')) => (es ++ (f a s').1, (f a s').2)

instance : Monad (Action ε σ) where
  pure := Action.pure
  bind := Action.bind

def get : Action ε σ σ := fun s => ([], some (s, s))
def gets (f : σ → α) : Action ε σ α := fun s => ([], some (f s, s))
def modify (f : σ → σ) : Action ε σ Unit := fun s => ([], some ((), f s))
def emit (e : ε) : Action ε σ Unit := fun s => ([e], some ((), s))
def unfinished : Action ε σ α := fun _ => ([], none)

/-- A computation over a part of the state, whose events are passed on through `f`. -/
def zoom (f : ε → ε') (part : σ → τ) (put : τ → σ → σ) (m : Action ε τ α) : Action ε' σ α := fun s =>
  ((m (part s)).1.map f, (m (part s)).2.map fun r => (r.1, put r.2 s))

/-- Runs `m` on each element in turn. -/
def forEach (m : β → Action ε σ Unit) : List β → Action ε σ Unit
  | [] => Action.pure ()
  | b :: bs => Action.bind (m b) fun _ => forEach m bs

def events (m : Action ε σ α) (s : σ) : List ε := (m s).1

theorem bind_eq_some {m : Action ε σ α} {f : α → Action ε σ β} {s t : σ} {b : β} :
    ((m >>= f) s).2 = some (b, t) ↔
      ∃ a s', (m s).2 = some (a, s') ∧ (f a s').2 = some (b, t) := by
  show (Action.bind m f s).2 = _ ↔ _
  unfold Action.bind
  rcases m s with ⟨es, _ | ⟨a, s'⟩⟩
  · simp
  · constructor
    · exact fun h => ⟨a, s', rfl, h⟩
    · rintro ⟨a', s'', same, h⟩
      cases same
      exact h

theorem events_bind {m : Action ε σ α} {f : α → Action ε σ β} {s s' : σ} {a : α}
    (returns : (m s).2 = some (a, s')) :
    (m >>= f).events s = m.events s ++ (f a).events s' := by
  show (Action.bind m f s).1 = _
  unfold Action.bind events
  rcases hm : m s with ⟨es, o⟩
  rw [hm] at returns
  simp only at returns
  subst returns
  rfl

theorem returns_bind {m : Action ε σ α} {f : α → Action ε σ β} {s s' : σ} {a : α}
    (returns : (m s).2 = some (a, s')) : ((m >>= f) s).2 = (f a s').2 := by
  show (Action.bind m f s).2 = _
  unfold Action.bind
  rcases hm : m s with ⟨es, o⟩
  rw [hm] at returns
  simp only at returns
  subst returns
  rfl

theorem events_bind_none {m : Action ε σ α} {f : α → Action ε σ β} {s : σ}
    (stuck : (m s).2 = none) : (m >>= f).events s = m.events s ∧ ((m >>= f) s).2 = none := by
  show (Action.bind m f s).1 = _ ∧ (Action.bind m f s).2 = _
  unfold Action.bind events
  rcases hm : m s with ⟨es, o⟩
  rw [hm] at stuck
  simp only at stuck
  subst stuck
  exact ⟨rfl, rfl⟩

theorem mem_events_bind {m : Action ε σ α} {f : α → Action ε σ β} {s : σ} {e : ε} (member : e ∈ m.events s) :
    e ∈ (m >>= f).events s := by
  cases returns : (m s).2 with
  | none => exact (events_bind_none returns).1 ▸ member
  | some next =>
    obtain ⟨a, s'⟩ := next
    rw [events_bind returns]
    exact List.mem_append_left _ member

theorem bind_pure_unit (m : Action ε σ α) : Action.bind m Action.pure = m := by
  funext s
  unfold Action.bind
  rcases m s with ⟨es, _ | ⟨a, s'⟩⟩
  · rfl
  · exact congrArg (·, some (a, s')) (List.append_nil es)

theorem bind_bind (m : Action ε σ α) (f : α → Action ε σ β) (g : β → Action ε σ γ) :
    Action.bind (Action.bind m f) g = Action.bind m fun a => Action.bind (f a) g := by
  funext s
  unfold Action.bind
  rcases m s with ⟨es, _ | ⟨a, s'⟩⟩
  · rfl
  · simp only
    rcases f a s' with ⟨es', _ | ⟨b, t⟩⟩
    · rfl
    · exact congrArg (·, (g b t).2) (List.append_assoc _ _ _)

theorem ite_bind {c : Prop} [Decidable c] {m m' : Action ε σ α} {f : α → Action ε σ β} :
    (if c then m else m') >>= f = if c then m >>= f else m' >>= f := by
  split <;> rfl

/-- No instance, as its simp lemmas would undo the binds that the rules below are about. -/
theorem lawful : LawfulMonad (Action ε σ) :=
  LawfulMonad.mk' _ bind_pure_unit (fun _ _ => rfl) bind_bind

/-- What is assumed of the events of a run, and what is promised of them in return. -/
structure Contract (ε : Type) where
  assumes : ε → Prop
  ensures : ε → Prop

/-- The promise holds of each event as long as the assumption has not failed, and `K` behind them. -/
def Contract.After (C : Contract ε) : List ε → Prop → Prop
  | [], K => K
  | e :: es, K => C.assumes e → C.ensures e ∧ C.After es K

namespace Contract
variable {C : Contract ε} {es es' : List ε} {K K' : Prop}

theorem after_append : C.After (es ++ es') K ↔ C.After es (C.After es' K) := by
  induction es with
  | nil => rfl
  | cons e es ih => simp only [List.cons_append, After, ih]

theorem After.mono (h : C.After es K) (weaker : K → K') : C.After es K' := by
  induction es with
  | nil => exact weaker h
  | cons e es ih => exact fun assumed => ⟨(h assumed).1, ih (h assumed).2⟩

theorem After.ensures (h : C.After es K) (assumed : ∀ e ∈ es, C.assumes e) :
    (∀ e ∈ es, C.ensures e) ∧ K := by
  induction es with
  | nil => exact ⟨fun e member => absurd member List.not_mem_nil, h⟩
  | cons e es ih =>
    obtain ⟨head, tail⟩ := h (assumed e List.mem_cons_self)
    obtain ⟨ensured, last⟩ := ih tail fun e' member => assumed e' (List.mem_cons_of_mem _ member)
    refine ⟨fun e' member => ?_, last⟩
    rcases List.mem_cons.mp member with rfl | member
    · exact head
    · exact ensured e' member

theorem After.and (h : C.After es K) (h' : C.After es K') : C.After es (K ∧ K') := by
  induction es with
  | nil => exact ⟨h, h'⟩
  | cons e es ih => exact fun assumed => ⟨(h assumed).1, ih (h assumed).2 (h' assumed).2⟩

/-- A contract that assumes more and promises less. -/
theorem After.weaken {D : Contract ε} (h : C.After es K) (assumes : ∀ e, D.assumes e → C.assumes e)
    (ensures : ∀ e, C.ensures e → D.ensures e) : D.After es K := by
  induction es with
  | nil => exact h
  | cons e es ih =>
    intro assumed
    obtain ⟨ensured, rest⟩ := h (assumes e assumed)
    exact ⟨ensures e ensured, ih rest⟩

theorem After.of_ensures (ensures : ∀ e, C.ensures e) (k : K) : C.After es K := by
  induction es with
  | nil => exact k
  | cons e es ih => exact fun _ => ⟨ensures e, ih⟩

/-- The contract says nothing about the event. -/
def Ignores (C : Contract ε) (e : ε) : Prop := C.assumes e ∧ C.ensures e

/-- The contract that is about no event. -/
def any : Contract ε := ⟨fun _ => True, fun _ => True⟩

/-- The contract for events that are passed on through `f`. -/
def comap (f : ε → ε') (C : Contract ε') : Contract ε where
  assumes e := C.assumes (f e)
  ensures e := C.ensures (f e)

theorem after_map {f : ε → ε'} {C : Contract ε'} :
    C.After (es.map f) K ↔ (C.comap f).After es K := by
  induction es with
  | nil => rfl
  | cons e es ih => simp only [List.map_cons, After, ih, comap]

end Contract

/-- Partial correctness under a contract on events: what is returned satisfies `Q`. -/
def wlp (C : Contract ε) (m : Action ε σ α) (Q : α → σ → Prop) (s : σ) : Prop :=
  C.After (m.events s) (∀ a s', (m s).2 = some (a, s') → Q a s')

section wlp
variable {C : Contract ε} {s : σ} {a : α} {m : Action ε σ α} {f : α → Action ε σ β}
  {Q : α → σ → Prop} {R : β → σ → Prop}

@[simp] theorem wlp_pure : wlp C (Pure.pure a : Action ε σ α) Q s ↔ Q a s := by
  constructor
  · exact fun h => h a s rfl
  · rintro h _ _ ⟨⟩
    exact h

@[simp] theorem wlp_bind : wlp C (m >>= f) R s ↔ wlp C m (fun a s' => wlp C (f a) R s') s := by
  unfold wlp
  rcases returns : (m s).2 with _ | ⟨a, s'⟩
  · obtain ⟨same, stuck⟩ := events_bind_none (f := f) returns
    rw [same, stuck]
    constructor
    · exact fun h => h.mono fun _ _ _ => by simp
    · exact fun h => h.mono fun _ _ _ => by simp
  · rw [events_bind returns, Contract.after_append]
    have back (b : β) (t : σ) : ((m >>= f) s).2 = some (b, t) ↔ (f a s').2 = some (b, t) := by
      rw [bind_eq_some, returns]
      simp
    simp only [back]
    constructor
    · rintro h
      refine h.mono ?_
      rintro h _ _ ⟨⟩
      exact h
    · exact fun h => h.mono fun h => h a s' rfl

@[simp] theorem wlp_ite {c : Prop} [Decidable c] {m m' : Action ε σ α} :
    wlp C (if c then m else m') Q s ↔ (c → wlp C m Q s) ∧ (¬ c → wlp C m' Q s) := by
  by_cases h : c
  · simp [h]
  · simp [h]

@[simp] theorem wlp_get {Q : σ → σ → Prop} : wlp C (get : Action ε σ σ) Q s ↔ Q s s := by
  simp [wlp, events, get, Contract.After]

@[simp] theorem wlp_gets {g : σ → α} : wlp C (gets g : Action ε σ α) Q s ↔ Q (g s) s := by
  simp [wlp, events, gets, Contract.After]

@[simp] theorem wlp_modify {g : σ → σ} {Q : Unit → σ → Prop} :
    wlp C (modify g : Action ε σ Unit) Q s ↔ Q () (g s) := by
  constructor
  · exact fun h => h () _ rfl
  · rintro h _ _ ⟨⟩
    exact h

@[simp] theorem wlp_emit {e : ε} {Q : Unit → σ → Prop} :
    wlp C (emit e : Action ε σ Unit) Q s ↔ (C.assumes e → C.ensures e ∧ Q () s) := by
  constructor
  · exact fun h assumed => ⟨(h assumed).1, (h assumed).2 () s rfl⟩
  · intro h assumed
    refine ⟨(h assumed).1, ?_⟩
    rintro _ _ ⟨⟩
    exact (h assumed).2

theorem wlp_emit_ignored {e : ε} {Q : Unit → σ → Prop} (ignored : C.Ignores e) :
    wlp C (emit e : Action ε σ Unit) Q s ↔ Q () s := by
  rw [wlp_emit]
  exact ⟨fun h => (h ignored.1).2, fun h _ => ⟨ignored.2, h⟩⟩

@[simp] theorem wlp_unfinished : wlp C (unfinished : Action ε σ α) Q s := by
  intro a s' h
  simp [unfinished] at h

@[simp] theorem wlp_zoom {g : ε → ε'} {C : Contract ε'} {part : τ → σ} {put : σ → τ → τ} {t : τ}
    {Q : α → τ → Prop} :
    wlp C (zoom g part put m) Q t ↔ wlp (C.comap g) m (fun a s' => Q a (put s' t)) (part t) := by
  unfold wlp
  rw [show (zoom g part put m).events t = (m.events (part t)).map g from rfl, Contract.after_map]
  have back : (∀ a t', (zoom g part put m t).2 = some (a, t') → Q a t') ↔
      ∀ a s', (m (part t)).2 = some (a, s') → Q a (put s' t) := by
    constructor
    · intro h a s' hm
      refine h a (put s' t) ?_
      simp [zoom, hm]
    · intro h a t' hm
      simp only [zoom, Option.map_eq_some_iff, Prod.mk.injEq] at hm
      obtain ⟨⟨a', s'⟩, hm, rfl, rfl⟩ := hm
      exact h a' s' hm
  rw [back]

theorem wlp.mono {Q' : α → σ → Prop} (h : wlp C m Q s) (weaker : ∀ a s', Q a s' → Q' a s') :
    wlp C m Q' s :=
  Contract.After.mono h fun h a s' returns => weaker a s' (h a s' returns)

theorem wlp.weaken {D : Contract ε} (h : wlp C m Q s) (assumes : ∀ e, D.assumes e → C.assumes e)
    (ensures : ∀ e, C.ensures e → D.ensures e) : wlp D m Q s :=
  Contract.After.weaken h assumes ensures

theorem wlp.and {Q' : α → σ → Prop} (h : wlp C m Q s) (h' : wlp C m Q' s) :
    wlp C m (fun a s' => Q a s' ∧ Q' a s') s :=
  (Contract.After.and h h').mono fun ⟨k, k'⟩ a s' returns => ⟨k a s' returns, k' a s' returns⟩

/-- What every run that returns does may be added to what is promised. -/
theorem wlp.and_returns {Q' : α → σ → Prop} (h : wlp C m Q s)
    (each : ∀ a s', (m s).2 = some (a, s') → Q' a s') : wlp C m (fun a s' => Q a s' ∧ Q' a s') s :=
  Contract.After.mono h fun k a s' returns => ⟨k a s' returns, each a s' returns⟩

/-- What is returned in a run that meets the assumption, and what is promised of its events. -/
theorem wlp.returns {s' : σ} (h : wlp C m Q s) (assumed : ∀ e ∈ m.events s, C.assumes e)
    (returns : (m s).2 = some (a, s')) : (∀ e ∈ m.events s, C.ensures e) ∧ Q a s' := by
  obtain ⟨ensured, last⟩ := Contract.After.ensures h assumed
  exact ⟨ensured, last a s' returns⟩

theorem wlp.returns_of_eq {es : List ε} {s' : σ} (h : wlp C m Q s) (ran : m s = (es, some (a, s')))
    (assumed : ∀ e ∈ es, C.assumes e) : (∀ e ∈ es, C.ensures e) ∧ Q a s' := by
  have events : m.events s = es := by rw [events, ran]
  rw [← events] at assumed ⊢
  exact h.returns assumed (by rw [ran])

/-- The rule for loops over a list: `I` tells what holds after each prefix. -/
theorem wlp_forEach {m : β → Action ε σ Unit} {bs : List β} {I : List β → σ → Prop}
    (step : ∀ done b rest s, bs = done ++ b :: rest → I done s →
      wlp C (m b) (fun _ s' => I (done ++ [b]) s') s) (start : I [] s) :
    wlp C (forEach m bs) (fun _ s' => I bs s') s := by
  suffices run : ∀ rest done s, bs = done ++ rest → I done s →
      wlp C (forEach m rest) (fun _ s' => I bs s') s from run bs [] s rfl start
  intro rest
  induction rest with
  | nil =>
    intro done s split inv
    rw [split, List.append_nil]
    exact wlp_pure.mpr inv
  | cons b rest ih =>
    intro done s split inv
    refine wlp_bind.mpr ((step done b rest s split inv).mono ?_)
    intro _ s' inv'
    exact ih (done ++ [b]) s' (by simp [split]) inv'

end wlp

/-- Partial correctness with a ghost: `u` folds the events of the run into `g`. -/
def track (C : Contract ε) (u : γ → ε → γ) (m : Action ε σ α) (Q : α → σ → γ → Prop) (s : σ) (g : γ) :
    Prop :=
  wlp C m (fun a s' => Q a s' ((m.events s).foldl u g)) s

section track
variable {C : Contract ε} {u : γ → ε → γ} {g : γ} {s : σ} {a : α} {m : Action ε σ α}
  {f : α → Action ε σ β} {Q : α → σ → γ → Prop} {R : β → σ → γ → Prop}

@[simp] theorem track_pure : track C u (Pure.pure a : Action ε σ α) Q s g ↔ Q a s g := by
  exact wlp_pure

@[simp] theorem track_bind :
    track C u (m >>= f) R s g ↔ track C u m (fun a s' g' => track C u (f a) R s' g') s g := by
  unfold track
  rw [wlp_bind]
  have split (a : α) (s' : σ) (returns : (m s).2 = some (a, s')) :
      ((m >>= f).events s).foldl u g = ((f a).events s').foldl u ((m.events s).foldl u g) := by
    rw [events_bind returns, List.foldl_append]
  constructor
  · exact fun h => Contract.After.mono h fun h a s' returns =>
      (h a s' returns).mono fun b t q => split a s' returns ▸ q
  · exact fun h => Contract.After.mono h fun h a s' returns =>
      (h a s' returns).mono fun b t q => (split a s' returns).symm ▸ q

@[simp] theorem track_ite {c : Prop} [Decidable c] {m m' : Action ε σ α} :
    track C u (if c then m else m') Q s g ↔ (c → track C u m Q s g) ∧ (¬ c → track C u m' Q s g) := by
  by_cases h : c
  · simp [h]
  · simp [h]

@[simp] theorem track_get {Q : σ → σ → γ → Prop} : track C u (get : Action ε σ σ) Q s g ↔ Q s s g := by
  exact wlp_get

@[simp] theorem track_gets {h : σ → α} : track C u (gets h : Action ε σ α) Q s g ↔ Q (h s) s g := by
  exact wlp_gets

@[simp] theorem track_modify {h : σ → σ} {Q : Unit → σ → γ → Prop} :
    track C u (modify h : Action ε σ Unit) Q s g ↔ Q () (h s) g := by
  exact wlp_modify

@[simp] theorem track_emit {e : ε} {Q : Unit → σ → γ → Prop} :
    track C u (emit e : Action ε σ Unit) Q s g ↔ (C.assumes e → C.ensures e ∧ Q () s (u g e)) := by
  exact wlp_emit

@[simp] theorem track_unfinished : track C u (unfinished : Action ε σ α) Q s g := by
  exact wlp_unfinished

theorem track_zoom {h : ε → ε'} {C : Contract ε'} {u : γ → ε' → γ} {part : τ → σ} {put : σ → τ → τ}
    {t : τ} {Q : α → τ → γ → Prop} :
    track C u (zoom h part put m) Q t g ↔
      track (C.comap h) (fun g e => u g (h e)) m (fun a s' g' => Q a (put s' t) g') (part t) g := by
  unfold track
  rw [wlp_zoom, show (zoom h part put m).events t = (m.events (part t)).map h from rfl]
  simp only [List.foldl_map]

theorem track.mono {Q' : α → σ → γ → Prop} (h : track C u m Q s g)
    (weaker : ∀ a s' g', Q a s' g' → Q' a s' g') : track C u m Q' s g :=
  wlp.mono h fun a s' => weaker a s' _

/-- What is known without the ghost, when the events leave a part `p` of it as it is. -/
theorem track_of_wlp {D : Contract ε} {Q : α → σ → Prop} {p : γ → β}
    (assumes : ∀ e, C.assumes e → D.assumes e) (ensures : ∀ e, D.ensures e → C.ensures e)
    (keeps : ∀ e g, D.ensures e → p (u g e) = p g) (h : wlp D m Q s) :
    track C u m (fun a s' g' => Q a s' ∧ p g' = p g) s g := by
  suffices run : ∀ (es : List ε) (K : Prop) (g : γ), D.After es K →
      C.After es (K ∧ p (es.foldl u g) = p g) from
    (run _ _ g h).mono fun ⟨last, kept⟩ a s' returns => ⟨last a s' returns, kept⟩
  intro es K
  induction es with
  | nil => exact fun g last => ⟨last, rfl⟩
  | cons e es ih =>
    intro g after assumed
    obtain ⟨ensured, rest⟩ := after (assumes e assumed)
    refine ⟨ensures e ensured, (ih (u g e) rest).mono ?_⟩
    rintro ⟨last, kept⟩
    exact ⟨last, kept.trans (keeps e g ensured)⟩

theorem track_forEach {m : β → Action ε σ Unit} {bs : List β} {I : List β → σ → γ → Prop}
    (step : ∀ done b rest s g, bs = done ++ b :: rest → I done s g →
      track C u (m b) (fun _ s' g' => I (done ++ [b]) s' g') s g) (start : I [] s g) :
    track C u (forEach m bs) (fun _ s' g' => I bs s' g') s g := by
  suffices run : ∀ rest done s g, bs = done ++ rest → I done s g →
      track C u (forEach m rest) (fun _ s' g' => I bs s' g') s g from run bs [] s g rfl start
  intro rest
  induction rest with
  | nil =>
    intro done s g split inv
    rw [split, List.append_nil]
    exact track_pure.mpr inv
  | cons b rest ih =>
    intro done s g split inv
    refine track_bind.mpr ((step done b rest s g split inv).mono ?_)
    intro _ s' g' inv'
    exact ih (done ++ [b]) s' g' (by simp [split]) inv'

end track

/-- Total correctness: `m` comes to an end, and what it returns satisfies `Q`. -/
def wp (m : Action ε σ α) (Q : α → σ → Prop) (s : σ) : Prop :=
  ∃ a s', (m s).2 = some (a, s') ∧ Q a s'

section wp
variable {s : σ} {a : α} {m : Action ε σ α} {f : α → Action ε σ β} {Q : α → σ → Prop} {R : β → σ → Prop}

@[simp] theorem wp_pure : wp (Pure.pure a : Action ε σ α) Q s ↔ Q a s := by
  constructor
  · rintro ⟨_, _, ⟨⟩, h⟩
    exact h
  · exact fun h => ⟨a, s, rfl, h⟩

@[simp] theorem wp_bind : wp (m >>= f) R s ↔ wp m (fun a s' => wp (f a) R s') s := by
  constructor
  · rintro ⟨b, t, returns, h⟩
    obtain ⟨a, s', first, rest⟩ := bind_eq_some.mp returns
    exact ⟨a, s', first, b, t, rest, h⟩
  · rintro ⟨a, s', first, b, t, rest, h⟩
    exact ⟨b, t, bind_eq_some.mpr ⟨a, s', first, rest⟩, h⟩

@[simp] theorem wp_ite {c : Prop} [Decidable c] {m m' : Action ε σ α} :
    wp (if c then m else m') Q s ↔ (c → wp m Q s) ∧ (¬ c → wp m' Q s) := by
  by_cases h : c
  · simp [h]
  · simp [h]

@[simp] theorem wp_get {Q : σ → σ → Prop} : wp (get : Action ε σ σ) Q s ↔ Q s s := by
  simp [wp, get]

@[simp] theorem wp_gets {g : σ → α} : wp (gets g : Action ε σ α) Q s ↔ Q (g s) s := by
  simp [wp, gets]

@[simp] theorem wp_modify {g : σ → σ} {Q : Unit → σ → Prop} :
    wp (modify g : Action ε σ Unit) Q s ↔ Q () (g s) := by
  constructor
  · rintro ⟨_, _, ⟨⟩, h⟩
    exact h
  · exact fun h => ⟨(), _, rfl, h⟩

@[simp] theorem wp_emit {e : ε} {Q : Unit → σ → Prop} : wp (emit e : Action ε σ Unit) Q s ↔ Q () s := by
  constructor
  · rintro ⟨_, _, ⟨⟩, h⟩
    exact h
  · exact fun h => ⟨(), _, rfl, h⟩

@[simp] theorem wp_zoom {g : ε → ε'} {part : τ → σ} {put : σ → τ → τ} {t : τ} {Q : α → τ → Prop} :
    wp (zoom g part put m) Q t ↔ wp m (fun a s' => Q a (put s' t)) (part t) := by
  unfold wp
  constructor
  · rintro ⟨a, t', returns, h⟩
    simp only [zoom, Option.map_eq_some_iff, Prod.mk.injEq] at returns
    obtain ⟨⟨a', s'⟩, hm, rfl, rfl⟩ := returns
    exact ⟨a', s', hm, h⟩
  · rintro ⟨a, s', hm, h⟩
    exact ⟨a, put s' t, by simp [zoom, hm], h⟩

/-- The rule for loops over a list, for total correctness. -/
theorem wp_forEach {m : β → Action ε σ Unit} {bs : List β} {I : List β → σ → Prop}
    (step : ∀ done b rest s, bs = done ++ b :: rest → I done s →
      wp (m b) (fun _ s' => I (done ++ [b]) s') s) (start : I [] s) :
    wp (forEach m bs) (fun _ s' => I bs s') s := by
  suffices run : ∀ rest done s, bs = done ++ rest → I done s →
      wp (forEach m rest) (fun _ s' => I bs s') s from run bs [] s rfl start
  intro rest
  induction rest with
  | nil =>
    intro done s split inv
    rw [split, List.append_nil]
    exact wp_pure.mpr inv
  | cons b rest ih =>
    intro done s split inv
    obtain ⟨_, s', returns, inv'⟩ := step done b rest s split inv
    exact wp_bind.mpr ⟨_, s', returns, ih (done ++ [b]) s' (by simp [split]) inv'⟩

theorem wp.mono {Q' : α → σ → Prop} (h : wp m Q s) (weaker : ∀ a s', Q a s' → Q' a s') : wp m Q' s := by
  obtain ⟨a, s', returns, q⟩ := h
  exact ⟨a, s', returns, weaker a s' q⟩

/-- Any two runs that come to an end are the same run. -/
theorem wp.iff {c : Prop} (h : wp m Q s) {Q' : α → σ → Prop} (each : ∀ a s', Q a s' → (Q' a s' ↔ c)) :
    wp m Q' s ↔ c := by
  obtain ⟨a, s', returns, q⟩ := h
  rw [← each a s' q]
  constructor
  · rintro ⟨_, _, returns', q'⟩
    obtain ⟨rfl, rfl⟩ := Prod.mk.inj (Option.some.inj (returns.symm.trans returns'))
    exact q'
  · exact fun q' => ⟨a, s', returns, q'⟩

/-- What is promised of every run holds of one that comes to an end. -/
theorem wp_of_wlp {C : Contract ε} (h : wlp C m Q s) (assumes : ∀ e, C.assumes e)
    (ends : wp m (fun _ _ => True) s) : wp m Q s := by
  obtain ⟨a, s', returns, _⟩ := ends
  exact ⟨a, s', returns, (h.returns (fun e _ => assumes e) returns).2⟩

theorem wp.returns {s' : σ} (h : wp m Q s) (returns : (m s).2 = some (a, s')) : Q a s' := by
  obtain ⟨_, _, returns', q⟩ := h
  obtain ⟨rfl, rfl⟩ := Prod.mk.inj (Option.some.inj (returns'.symm.trans returns))
  exact q

end wp

end Action
end EvmAssigner

import Mathlib.Order.Monotone.Basic
import EvmAssigner.Lib.Action

namespace EvmAssigner
namespace Action
variable {ε ε' σ τ α β : Type}

/-- `m'` does what `m` does, and goes on where `m` is cut off. -/
def Extends (m m' : Action ε σ α) : Prop :=
  ∀ s, m' s = m s ∨ ((m s).2 = none ∧ m.events s <+: m'.events s)

namespace Extends
variable {m m' m'' : Action ε σ α} {s : σ}

theorem events (h : Extends m m') (s : σ) : m.events s <+: m'.events s := by
  rcases h s with same | ⟨_, earlier⟩
  · have same : m'.events s = m.events s := congrArg Prod.fst same
    exact same ▸ List.prefix_rfl
  · exact earlier

theorem trans (h : Extends m m') (h' : Extends m' m'') : Extends m m'' := by
  intro s
  rcases h s with same | ⟨stuck, earlier⟩
  · rcases h' s with same' | ⟨stuck', later⟩
    · exact Or.inl (same'.trans same)
    · exact Or.inr ⟨by rw [← same, stuck'], (events h s).trans later⟩
  · exact Or.inr ⟨stuck, earlier.trans (events h' s)⟩

end Extends

/-- More is done with more fuel. -/
instance : Preorder (Action ε σ α) where
  le := Extends
  le_refl _ _ := Or.inl rfl
  le_trans _ _ _ := Extends.trans

section
variable {m m' : Action ε σ α} {f f' : α → Action ε σ β} {s : σ}

theorem unfinished_le : (unfinished : Action ε σ α) ≤ m := fun _ => Or.inr ⟨rfl, List.nil_prefix⟩

theorem eq_of_le (le : m ≤ m') {r : α × σ} (returns : (m s).2 = some r) : m' s = m s := by
  rcases le s with same | ⟨stuck, _⟩
  · exact same
  · rw [stuck] at returns
    contradiction

theorem bind_le (le : m ≤ m') (each : ∀ a, f a ≤ f' a) : (m >>= f) ≤ (m' >>= f') := by
  intro s
  cases returns : (m s).2 with
  | none =>
    obtain ⟨same, stuck⟩ := events_bind_none (f := f) returns
    refine Or.inr ⟨stuck, ?_⟩
    rw [same]
    refine (Extends.events le s).trans ?_
    cases returns' : (m' s).2 with
    | none => exact (events_bind_none returns').1 ▸ List.prefix_rfl
    | some r =>
      obtain ⟨a, s'⟩ := r
      rw [events_bind returns']
      exact List.prefix_append _ _
  | some r =>
    obtain ⟨a, s'⟩ := r
    have same := eq_of_le le returns
    have returns' : (m' s).2 = some (a, s') := by rw [same, returns]
    have events' : m'.events s = m.events s := congrArg Prod.fst same
    rcases each a s' with same' | ⟨stuck, earlier⟩
    · left
      refine Prod.ext ?_ ?_
      · change (m' >>= f').events s = (m >>= f).events s
        rw [events_bind returns', events_bind returns, events', Action.events, Action.events, same']
        rfl
      · rw [returns_bind returns', returns_bind returns, same']
    · right
      rw [returns_bind returns, events_bind returns, events_bind returns', events']
      exact ⟨stuck, List.prefix_append_right_inj _ |>.mpr earlier⟩

theorem ite_le {c : Prop} [Decidable c] {n n' : Action ε σ α} (le : m ≤ m') (le' : n ≤ n') :
    (if c then m else n) ≤ if c then m' else n' := by
  split
  · exact le
  · exact le'

theorem zoom_le {g : ε → ε'} {part : τ → σ} {put : σ → τ → τ} (le : m ≤ m') :
    zoom g part put m ≤ zoom g part put m' := by
  intro t
  rcases le (part t) with same | ⟨stuck, earlier⟩
  · exact Or.inl (by rw [zoom, zoom, same])
  · refine Or.inr ⟨by rw [zoom, stuck, Option.map_none], ?_⟩
    exact earlier.map g

end

/-- Total correctness, as long as the events are as assumed. -/
def total (A : ε → Prop) (m : Action ε σ α) (Q : α → σ → Prop) (s : σ) : Prop :=
  (∀ e ∈ m.events s, A e) → wp m Q s

section total
variable {A : ε → Prop} {m m' : Action ε σ α} {f : α → Action ε σ β} {Q Q' : α → σ → Prop}
  {R : β → σ → Prop} {s : σ}

/-- What a run that comes to an end does holds under any contract that promises nothing. -/
theorem wlp_of_wp {C : Contract ε} (h : wp m Q s) (ensures : ∀ e, C.ensures e) : wlp C m Q s :=
  Contract.After.of_ensures ensures fun _ _ returns => h.returns returns

theorem total_of_wp (h : wp m Q s) : total A m Q s := fun _ => h

theorem total.mono (h : total A m Q s) (weaker : ∀ a s', Q a s' → Q' a s') : total A m Q' s :=
  fun assumed => (h assumed).mono weaker

theorem total_bind (h : total A m (fun a s' => total A (f a) R s') s) : total A (m >>= f) R s := by
  intro assumed
  obtain ⟨a, s', returns, rest⟩ := h fun e member => assumed e (mem_events_bind member)
  rw [events_bind returns] at assumed
  have ends := rest fun e member => assumed e (List.mem_append_right _ member)
  exact wp_bind.mpr ⟨a, s', returns, ends⟩

theorem total_ite {c : Prop} [Decidable c] (h : c → total A m Q s) (h' : ¬ c → total A m' Q s) :
    total A (if c then m else m') Q s := by
  split
  · exact h ‹_›
  · exact h' ‹_›

theorem total_emit {e : ε} {Q : Unit → σ → Prop} (h : A e → Q () s) : total A (emit e) Q s :=
  fun assumed => wp_emit.mpr (h (assumed e List.mem_cons_self))

theorem total_zoom {A : ε' → Prop} {g : ε → ε'} {part : τ → σ} {put : σ → τ → τ} {t : τ}
    {Q : α → τ → Prop} (h : total (fun e => A (g e)) m (fun a s' => Q a (put s' t)) (part t)) :
    total A (zoom g part put m) Q t := by
  intro assumed
  exact wp_zoom.mpr (h fun e member => assumed (g e) (List.mem_map_of_mem member))

theorem total.of_le (le : m ≤ m') (h : total A m Q s) : total A m' Q s := by
  intro assumed
  obtain ⟨a, s', returns, q⟩ := h fun e member => assumed e ((Extends.events le s).subset member)
  exact ⟨a, s', by rw [eq_of_le le returns, returns], q⟩

/-- What every run promises is known of one that comes to an end. -/
theorem total.and_wlp {E : ε → Prop} (h : total A m Q s) (h' : wlp ⟨A, E⟩ m Q' s) :
    total A m (fun a s' => Q a s' ∧ Q' a s') s := by
  intro assumed
  obtain ⟨a, s', returns, q⟩ := h assumed
  exact ⟨a, s', returns, q, (h'.returns assumed returns).2⟩

end total

/-- A computation comes to an end with fuel enough. -/
def Halts (A : ε → Prop) (M : Nat → Action ε σ α) (Q : α → σ → Prop) (s : σ) : Prop :=
  ∃ fuel, total A (M fuel) Q s

section Halts
variable {A : ε → Prop} {M M' : Nat → Action ε σ α} {N : α → Nat → Action ε σ β} {Q Q' : α → σ → Prop}
  {R : β → σ → Prop} {s : σ}

theorem Halts.mono (h : Halts A M Q s) (weaker : ∀ a s', Q a s' → Q' a s') : Halts A M Q' s :=
  h.imp fun _ total => total.mono weaker

theorem Halts.of_le (le : ∀ fuel, M fuel ≤ M' fuel) (h : Halts A M Q s) : Halts A M' Q s :=
  h.imp fun fuel total => total.of_le (le fuel)

theorem halts_of_total {m : Action ε σ α} (h : total A m Q s) : Halts A (fun _ => m) Q s := ⟨0, h⟩

theorem Halts.bind (mono : Monotone M) (mono' : ∀ a, Monotone (N a))
    (h : Halts A M (fun a s' => Halts A (N a) R s') s) :
    Halts A (fun fuel => M fuel >>= fun a => N a fuel) R s := by
  obtain ⟨fuel, ends⟩ := h
  by_cases assumed : ∀ e ∈ (M fuel).events s, A e
  · obtain ⟨a, s', returns, fuel', ends'⟩ := ends assumed
    refine ⟨max fuel fuel', total_bind fun _ => ⟨a, s', ?_, ?_⟩⟩
    · rw [eq_of_le (mono (le_max_left _ _)) returns, returns]
    · exact ends'.of_le (mono' a (le_max_right _ _))
  · exact ⟨fuel, fun all => absurd (fun e member => all e (mem_events_bind member)) assumed⟩

theorem halts_of_wp {m : Action ε σ α} (h : wp m Q s) : Halts A (fun _ => m) Q s :=
  halts_of_total (total_of_wp h)

theorem halts_ite {c : Prop} [Decidable c] (h : c → Halts A M Q s) (h' : ¬ c → Halts A M' Q s) :
    Halts A (fun fuel => if c then M fuel else M' fuel) Q s := by
  split
  · exact h ‹_›
  · exact h' ‹_›

theorem Halts.more (h : Halts A (fun fuel => M (fuel + 1)) Q s) : Halts A M Q s :=
  h.elim fun fuel ends => ⟨fuel + 1, ends⟩

theorem Halts.and_wlp {E : ε → Prop} (h : Halts A M Q s) (h' : ∀ fuel, wlp ⟨A, E⟩ (M fuel) Q' s) :
    Halts A M (fun a s' => Q a s' ∧ Q' a s') s :=
  h.imp fun fuel ends => ends.and_wlp (h' fuel)

theorem halts_wp_bind {m : Action ε σ α} (h : wp m (fun a s' => Halts A (N a) R s') s) :
    Halts A (fun fuel => m >>= fun a => N a fuel) R s := by
  obtain ⟨a, s', returns, fuel, ends⟩ := h
  exact ⟨fuel, total_bind (total_of_wp ⟨a, s', returns, ends⟩)⟩

theorem halts_emit_bind {e : ε} {M : Nat → Action ε σ β} (h : A e → Halts A M R s) :
    Halts A (fun fuel => emit e >>= fun _ => M fuel) R s := by
  by_cases assumed : A e
  · exact (h assumed).imp fun fuel ends => total_bind (total_emit fun _ => ends)
  · exact ⟨0, fun all => absurd (all e (mem_events_bind List.mem_cons_self)) assumed⟩

theorem Halts.bind_total {f : α → Action ε σ β} (h : Halts A M (fun a s' => total A (f a) R s') s) :
    Halts A (fun fuel => M fuel >>= f) R s :=
  h.imp fun _ => total_bind

theorem Halts.zoom {A : ε' → Prop} {g : ε → ε'} {part : τ → σ} {put : σ → τ → τ} {t : τ} {Q : α → τ → Prop}
    (h : Halts (fun e => A (g e)) M (fun a s' => Q a (put s' t)) (part t)) :
    Halts A (fun fuel => Action.zoom g part put (M fuel)) Q t :=
  h.imp fun _ => total_zoom

end Halts

end Action
end EvmAssigner

import EvmAssigner.Lib.Action

namespace EvmAssigner.Action
variable {ε ε' ε'' σ τ σ' τ' α β γ δ : Type}

/-- From `φ s` the second computation does what the first one does from `s` as long as that leaves only events of `G`
behind, and returns what `R` makes of the result, where `R` makes anything of it. -/
class Follows (G : ε → Prop) (φ : σ → τ) (R : α → Option β) (m : Action ε σ α) (m' : Action ε' τ β) : Prop where
  returns : ∀ {s a s' b}, (∀ e ∈ m.events s, G e) → (m s).2 = some (a, s') → R a = some b →
    (m' (φ s)).2 = some (b, φ s')

namespace Follows
variable {G : ε → Prop} {φ : σ → τ} {R : α → Option β} {S : γ → Option δ} {m : Action ε σ α} {m' : Action ε' τ β}
  {f : α → Action ε σ γ} {f' : β → Action ε' τ δ}

/-- Where `R` makes nothing of a result there is nothing to be shown of what comes behind it, as long as no more is
made of that. -/
theorem bind_of (first : Follows G φ R m m') (rest : ∀ a b, R a = some b → Follows G φ S (f a) (f' b))
    (void : ∀ a s c s', R a = none → (f a s).2 = some (c, s') → S c = none) :
    Follows G φ S (m >>= f) (m' >>= f') := by
  refine ⟨fun {s c s' d} allowed ran kept => ?_⟩
  obtain ⟨a, t, ran, last⟩ := bind_eq_some.mp ran
  rw [events_bind ran, List.forall_mem_append] at allowed
  cases made : R a with
  | none =>
    rw [void a t c s' made last] at kept
    contradiction
  | some b =>
    exact bind_eq_some.mpr ⟨b, φ t, first.returns allowed.1 ran made, (rest a b made).returns allowed.2 last kept⟩

theorem pure_of {a : α} {b : β} (same : ∀ c, R a = some c → c = b) :
    Follows G φ R (Pure.pure a : Action ε σ α) (Pure.pure b : Action ε' τ β) := by
  refine ⟨fun _ ran made => ?_⟩
  obtain ⟨rfl, rfl⟩ := Prod.mk.inj (Option.some.inj ran)
  exact congrArg (fun b => some (b, φ _)) (same _ made).symm

/-- What comes behind an event may count on `G` of it. -/
theorem emit_of {e : ε} {e' : ε'} {f : Unit → Action ε σ α} {f' : Unit → Action ε' τ β}
    (follows : G e → Follows G φ R (f ()) (f' ())) : Follows G φ R (emit e >>= f) (emit e' >>= f') := by
  refine ⟨fun {s a s' b} allowed ran made => ?_⟩
  rw [events_bind (show (emit e s).2 = some ((), s) from rfl), List.forall_mem_append] at allowed
  exact (follows (allowed.1 e (List.mem_singleton_self e))).returns allowed.2 ran made

/-- The conditions need not be the same where nothing is made of a result. -/
theorem ite_of {c c' : Prop} [Decidable c] [Decidable c'] {n : Action ε σ α} {n' : Action ε' τ β}
    (both : c → c' → Follows G φ R m m') (neither : ¬ c → ¬ c' → Follows G φ R n n')
    (first : c → ¬ c' → ∀ s a s', (m s).2 = some (a, s') → R a = none)
    (second : ¬ c → c' → ∀ s a s', (n s).2 = some (a, s') → R a = none) :
    Follows G φ R (if c then m else n) (if c' then m' else n') := by
  refine ⟨fun {s a s' b} allowed ran made => ?_⟩
  by_cases here : c
  · rw [if_pos here] at allowed ran
    by_cases there : c'
    · rw [if_pos there]
      exact (both here there).returns allowed ran made
    · rw [first here there s a s' ran] at made
      contradiction
  · rw [if_neg here] at allowed ran
    by_cases there : c'
    · rw [second here there s a s' ran] at made
      contradiction
    · rw [if_neg there]
      exact (neither here there).returns allowed ran made

/-- The state may be looked at for what `φ` leaves as it is. -/
theorem get_of {f : σ → Action ε σ α} {f' : τ → Action ε' τ β} {g : σ → Action ε' τ β} (same : ∀ s, f' (φ s) = g s)
    (follows : ∀ s, Follows G φ R (f s) (g s)) : Follows G φ R (get >>= f) (get >>= f') := by
  refine ⟨fun {s a s' b} allowed ran made => ?_⟩
  obtain ⟨_, _, ⟨⟩, ran⟩ := bind_eq_some.mp ran
  refine bind_eq_some.mpr ⟨_, _, rfl, ?_⟩
  rw [same]
  exact (follows s).returns allowed ran made

theorem get_same {φ : σ → σ} {f : σ → Action ε σ α} {f' : σ → Action ε' σ β} (same : ∀ s, f' (φ s) = f' s)
    (follows : ∀ s, Follows G φ R (f s) (f' s)) : Follows G φ R (get >>= f) (get >>= f') :=
  get_of same follows

/-- Computations on parts of the states. -/
theorem zoom_of {G' : ε'' → Prop} {ψ : σ' → τ'} {part : σ' → σ} {put : σ → σ' → σ'} {part' : τ' → τ}
    {put' : τ → τ' → τ'} {g : ε → ε''} {g' : ε' → ε''} (follows : Follows G φ R m m')
    (events : ∀ e, G' (g e) → G e) (parts : ∀ s, part' (ψ s) = φ (part s))
    (puts : ∀ s t, put' (φ s) (ψ t) = ψ (put s t)) : Follows G' ψ R (zoom g part put m) (zoom g' part' put' m') := by
  refine ⟨fun {s a s' b} allowed ran made => ?_⟩
  have allowed : ∀ e ∈ m.events (part s), G e := fun e member => events e (allowed (g e) (List.mem_map_of_mem member))
  simp only [zoom, Option.map_eq_some_iff, Prod.mk.injEq] at ran ⊢
  obtain ⟨⟨_, t⟩, ran, rfl, rfl⟩ := ran
  rw [parts]
  exact ⟨⟨b, φ t⟩, follows.returns allowed ran made, rfl, puts t s⟩

end Follows

/-- Two computations that do the same from `s` and from `φ s`. -/
abbrev Alike (G : ε → Prop) (φ : σ → τ) (m : Action ε σ α) (m' : Action ε' τ α) : Prop := Follows G φ some m m'

section
variable {G : ε → Prop} {φ : σ → τ} {S : γ → Option δ} {m : Action ε σ α} {m' : Action ε' τ α}

theorem alike_refl (m : Action ε σ α) : Alike G id m m := ⟨fun _ ran made => Option.some.inj made ▸ ran⟩

instance alike_pure {a : α} : Alike G φ (Pure.pure a : Action ε σ α) (Pure.pure a : Action ε' τ α) :=
  .pure_of fun _ made => (Option.some.inj made).symm

instance alike_emit {e : ε} {e' : ε'} : Alike G φ (emit e) (emit e') := ⟨by rintro s _ _ _ _ ⟨⟩ ⟨⟩; rfl⟩

instance alike_unfinished : Alike G φ (unfinished : Action ε σ α) (unfinished : Action ε' τ α) := ⟨nofun⟩

theorem Follows.bind {f : α → Action ε σ γ} {f' : α → Action ε' τ δ} (alike : Alike G φ m m')
    (follows : ∀ a, Follows G φ S (f a) (f' a)) : Follows G φ S (m >>= f) (m' >>= f') :=
  .bind_of alike (fun a _ made => Option.some.inj made ▸ follows a) nofun

instance follows_bind {f : α → Action ε σ γ} {f' : α → Action ε' τ δ} [alike : Alike G φ m m']
    [follows : ∀ a, Follows G φ S (f a) (f' a)] : Follows G φ S (m >>= f) (m' >>= f') :=
  .bind alike follows

theorem Follows.ite {c : Prop} [Decidable c] {m n : Action ε σ γ} {m' n' : Action ε' τ δ} (yes : Follows G φ S m m')
    (no : Follows G φ S n n') : Follows G φ S (if c then m else n) (if c then m' else n') :=
  .ite_of (fun _ _ => yes) (fun _ _ => no) (fun here there => absurd here there) fun here there => absurd there here

instance follows_ite {c : Prop} [Decidable c] {m n : Action ε σ γ} {m' n' : Action ε' τ δ} [yes : Follows G φ S m m']
    [no : Follows G φ S n n'] : Follows G φ S (if c then m else n) (if c then m' else n') :=
  .ite yes no

instance alike_forEach {m : β → Action ε σ Unit} {m' : β → Action ε' τ Unit} {bs : List β}
    [alike : ∀ b, Alike G φ (m b) (m' b)] : Alike G φ (forEach m bs) (forEach m' bs) := by
  induction bs with
  | nil => exact alike_pure
  | cons b bs ih =>
    show Alike G φ (m b >>= fun _ => forEach m bs) (m' b >>= fun _ => forEach m' bs)
    infer_instance

theorem alike_gets {g : σ → α} {g' : τ → α} (same : ∀ s, g' (φ s) = g s) :
    Alike G φ (gets g : Action ε σ α) (gets g' : Action ε' τ α) := by
  refine ⟨?_⟩
  rintro s _ _ _ _ ⟨⟩ ⟨⟩
  exact congrArg (fun a => some (a, φ s)) (same s)

theorem alike_modify {g : σ → σ} {g' : τ → τ} (same : ∀ s, g' (φ s) = φ (g s)) :
    Alike G φ (modify g : Action ε σ Unit) (modify g' : Action ε' τ Unit) := by
  refine ⟨?_⟩
  rintro s _ _ _ _ ⟨⟩ ⟨⟩
  exact congrArg (fun s => some ((), s)) (same s)

end
end EvmAssigner.Action

import SdyServer.Lib.Lua

/-!
# Random choices

A random generator is the sequence of the numbers it is going to give, and a computation that draws
takes numbers off the front. What holds for every sequence holds always; a value can be drawn when
some numbers make the computation return it, whatever is drawn after it. Both compose along `bind`.
-/

/-- What a generator is going to give. -/
abbrev Rolls := ℕ → ℕ

/-- A computation that draws random numbers, and returns a value or raises. -/
abbrev Roll (α : Type) := StateT Rolls (Except LuaError) α

namespace Roll

variable {α β : Type}

def push (n : ℕ) (rolls : Rolls) : Rolls
  | 0 => n
  | i + 1 => rolls i

/-- `math.random(lo, hi)`, an error where the interval is empty. -/
def random (lo hi : ℤ) : Roll ℤ := fun rolls =>
  if hi < lo then .error .emptyInterval
  else .ok (lo + (rolls 0 : ℤ) % (hi - lo + 1), fun i => rolls (i + 1))

/-- Whatever is drawn, the computation returns a value with the property. -/
def Always (x : Roll α) (P : α → Prop) : Prop :=
  ∀ rolls, ∃ a rest, x rolls = .ok (a, rest) ∧ P a

/-- Some draws make the computation return the value. -/
def Can (x : Roll α) (a : α) : Prop := ∀ rest, ∃ rolls, x rolls = .ok (a, rest)

theorem bind_of_ok {x : Roll α} {f : α → Roll β} {rolls between : Rolls} {a : α}
    (hx : x rolls = .ok (a, between)) : (x >>= f) rolls = f a between := by
  show (x rolls >>= fun p => f p.1 p.2) = _
  rw [hx]
  rfl

section Always

variable {x : Roll α} {f : α → Roll β} {P P' : α → Prop} {Q : β → Prop}

theorem Always.pure {a : α} (ha : P a) : Always (pure a) P := fun rolls => ⟨a, rolls, rfl, ha⟩

theorem Always.lift {l : Lua α} {a : α} (hl : l = .ok a) (ha : P a) :
    Always (liftM l : Roll α) P := by
  intro rolls
  subst hl
  exact ⟨a, rolls, rfl, ha⟩

theorem Always.bind (hx : Always x P) (hf : ∀ a, P a → Always (f a) Q) : Always (x >>= f) Q := by
  intro rolls
  obtain ⟨a, between, ha, hP⟩ := hx rolls
  obtain ⟨b, rest, hb, hQ⟩ := hf a hP between
  exact ⟨b, rest, (bind_of_ok ha).trans hb, hQ⟩

theorem Always.mono (hx : Always x P) (himp : ∀ a, P a → P' a) : Always x P' := by
  intro rolls
  obtain ⟨a, rest, ha, hP⟩ := hx rolls
  exact ⟨a, rest, ha, himp a hP⟩

/-- A draw from an interval with a number in it gives a number of the interval. -/
theorem Always.random {lo hi : ℤ} (hle : lo ≤ hi) : Always (random lo hi) fun v => lo ≤ v ∧
    v ≤ hi := by
  intro rolls
  refine ⟨_, _, by rw [Roll.random, if_neg (by omega)], ?_, ?_⟩
  · have := Int.emod_nonneg (rolls 0 : ℤ) (b := hi - lo + 1) (by omega)
    omega
  · have := Int.emod_lt_of_pos (rolls 0 : ℤ) (b := hi - lo + 1) (by omega)
    omega

/-- A loop keeps what every turn keeps, the invariant saying what the turns so far have done. -/
theorem Always.foldlM {σ : Type} {g : σ → α → Roll σ} {l : List α} (Inv : List α → σ → Prop)
    (hstep : ∀ seen a rest, l = seen ++ a :: rest → ∀ s, Inv seen s →
      Always (g s a) (Inv (seen ++ [a])))
    {s : σ} (hs : Inv [] s) : Always (l.foldlM g s) (Inv l) := by
  suffices h : ∀ rest seen s, l = seen ++ rest → Inv seen s → Always (rest.foldlM g s) (Inv l) from
    h l [] s rfl hs
  intro rest
  induction rest with
  | nil =>
      rintro seen s rfl hs
      rw [List.append_nil]
      exact Always.pure hs
  | cons a rest ih =>
      intro seen s hl hs
      rw [List.foldlM_cons]
      exact (hstep seen a rest hl s hs).bind fun s' hs' => ih (seen ++ [a]) s' (by simp [hl]) hs'

end Always

section Can

variable {x : Roll α} {f : α → Roll β} {a : α} {b : β}

theorem Can.pure (a : α) : Can (pure a) a := fun rest => ⟨rest, rfl⟩

theorem Can.lift {l : Lua α} (hl : l = .ok a) : Can (liftM l : Roll α) a := by
  intro rest
  subst hl
  exact ⟨rest, rfl⟩

theorem Can.bind (hx : Can x a) (hf : Can (f a) b) : Can (x >>= f) b := by
  intro rest
  obtain ⟨between, hbetween⟩ := hf rest
  obtain ⟨rolls, hrolls⟩ := hx between
  exact ⟨rolls, (bind_of_ok hrolls).trans hbetween⟩

/-- Every number of an interval can be drawn. -/
theorem Can.random {lo hi v : ℤ} (hlo : lo ≤ v) (hhi : v ≤ hi) : Can (random lo hi) v := by
  intro rest
  have hcast : ((v - lo).toNat : ℤ) = v - lo := Int.toNat_of_nonneg (by omega)
  have hmod : (v - lo) % (hi - lo + 1) = v - lo := Int.emod_eq_of_lt (by omega) (by omega)
  refine ⟨push (v - lo).toNat rest, ?_⟩
  rw [Roll.random, if_neg (by omega)]
  show Except.ok (lo + ((v - lo).toNat : ℤ) % (hi - lo + 1), rest) = _
  rw [hcast, hmod, add_sub_cancel]

/-- A loop can take any course whose turns can be taken. -/
theorem Can.foldlM {σ : Type} {g : σ → α → Roll σ} {next : σ → α → σ} {l : List α} {s : σ}
    (hstep : ∀ a ∈ l, ∀ s, Can (g s a) (next s a)) : Can (l.foldlM g s) (l.foldl next s) := by
  induction l generalizing s with
  | nil => exact Can.pure s
  | cons a rest ih =>
      rw [List.foldlM_cons, List.foldl_cons]
      exact (hstep a (List.mem_cons_self ..) s).bind
        (ih fun b hb => hstep b (List.mem_cons_of_mem _ hb))

/-- What always holds holds after the values that can be drawn. -/
theorem Can.always_of_bind {Q : β → Prop} (hcan : Can x a) (hx : Always (x >>= f) Q) :
    Always (f a) Q := by
  intro rolls
  obtain ⟨before, hbefore⟩ := hcan rolls
  obtain ⟨b, rest, hb, hQ⟩ := hx before
  exact ⟨b, rest, (bind_of_ok hbefore).symm.trans hb, hQ⟩

theorem Can.of_always {P : α → Prop} (hcan : Can x a) (hx : Always x P) : P a := by
  obtain ⟨rolls, hrolls⟩ := hcan fun _ => 0
  obtain ⟨a', rest, ha', hP⟩ := hx rolls
  rw [hrolls] at ha'
  cases ha'
  exact hP

end Can

end Roll

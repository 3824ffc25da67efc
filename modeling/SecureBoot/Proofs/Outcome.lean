import Mathlib
import SecureBoot.Error

/-!
# When computations succeed

A computation that may fail is taken apart from its result: what it gives, its parts have given, and
every check in it has passed. Each law here says so for one way of putting parts together. An error
comes from one of the parts too.
-/

namespace SecureBoot

variable {α β ε : Type}

/-! ## Parts that may give nothing -/

theorem guard_bind_eq_some {p : Prop} [Decidable p] {f : Unit → Option β} {y : β} :
    (guard p >>= f) = some y ↔ p ∧ f () = some y := by
  by_cases hp : p <;> simp [guard, hp, failure]

theorem bind_eq_some {o : Option α} {f : α → Option β} {y : β} :
    (o >>= f) = some y ↔ ∃ a, o = some a ∧ f a = some y := Option.bind_eq_some_iff

/-! ## Parts that may throw -/

theorem bind_eq_ok {e : Except ε α} {f : α → Except ε β} {y : β} :
    (e >>= f) = .ok y ↔ ∃ a, e = .ok a ∧ f a = .ok y := by
  cases e with
  | error e => exact ⟨nofun, fun ⟨_, h, _⟩ => by cases h⟩
  | ok a => exact ⟨fun h => ⟨a, rfl, h⟩, fun ⟨_, h, hf⟩ => by cases h; exact hf⟩

theorem pure_eq_ok {a y : α} : (pure a : Except ε α) = .ok y ↔ a = y :=
  ⟨fun h => by cases h; rfl, fun h => congrArg Except.ok h⟩

theorem check_eq_ok {p : Prop} [Decidable p] {e : ε} {rest : Except ε β} {y : β} :
    (if p then throw e else rest) = .ok y ↔ ¬ p ∧ rest = .ok y := by
  split
  · exact ⟨nofun, fun h => absurd (by assumption) h.1⟩
  · exact ⟨fun h => ⟨by assumption, h⟩, fun h => h.2⟩

/-- A check between two steps. -/
theorem check_bind_eq_ok {p : Prop} [Decidable p] {e : ε} {jump : α → Except ε β}
    {rest : Except ε β} {y : β} :
    (if p then (throw e >>= jump : Except ε β) else rest) = .ok y ↔ ¬ p ∧ rest = .ok y :=
  check_eq_ok

/-- A step that is taken only under a condition. -/
theorem when_bind_eq_ok {p : Prop} [Decidable p] {e : Except ε Unit} {jump : Unit → Except ε β}
    {y : β} :
    (if p then (e >>= jump) else jump ()) = .ok y ↔ (p → e = .ok ()) ∧ jump () = .ok y := by
  split
  · rename_i hp
    rw [bind_eq_ok]
    exact ⟨fun ⟨_, he, h⟩ => ⟨fun _ => he, h⟩, fun ⟨he, h⟩ => ⟨(), he hp, h⟩⟩
  · rename_i hp
    exact ⟨fun h => ⟨fun h' => absurd h' hp, h⟩, fun h => h.2⟩

/-- An error comes from the first part, or from the second with what the first has given. -/
theorem bind_eq_error {e : Except ε α} {f : α → Except ε β} {error : ε} :
    (e >>= f) = .error error ↔ e = .error error ∨ ∃ a, e = .ok a ∧ f a = .error error := by
  cases e with
  | error e =>
    constructor
    · intro h
      cases h
      exact .inl rfl
    · rintro (h | ⟨_, h, -⟩)
      · cases h
        rfl
      · cases h
  | ok a =>
    constructor
    · exact fun h => .inr ⟨a, rfl, h⟩
    · rintro (h | ⟨_, ha, h⟩)
      · cases h
      · cases ha
        exact h

theorem check_bind_eq_error {p : Prop} [Decidable p] {e : ε} {jump : α → Except ε β}
    {rest : Except ε β} {error : ε} :
    (if p then (throw e >>= jump : Except ε β) else rest) = .error error ↔
      p ∧ e = error ∨ ¬ p ∧ rest = .error error := by
  split
  · rename_i hp
    constructor
    · intro h
      cases h
      exact .inl ⟨hp, rfl⟩
    · rintro (⟨-, rfl⟩ | ⟨hnot, -⟩)
      · rfl
      · exact absurd hp hnot
  · rename_i hp
    constructor
    · exact fun h => .inr ⟨hp, h⟩
    · rintro (⟨hpos, -⟩ | ⟨-, h⟩)
      · exact absurd hpos hp
      · exact h

theorem eq_ok_of_toOption {e : Except ε α} {a : α} (h : e.toOption = some a) : e = .ok a := by
  cases e with
  | error _ => cases h
  | ok _ => cases h; rfl

theorem exists_eq_ok_of_any {e : Except ε α} {p : α → Bool} (h : e.toOption.any p = true) :
    ∃ a, e = .ok a ∧ p a = true := by
  cases e with
  | error _ => cases h
  | ok a => exact ⟨a, rfl, h⟩

/-! ## Lists of parts -/

theorem mapM_eq_some {f : α → Option β} {xs : List α} {ys : List β} :
    xs.mapM f = some ys ↔ List.Forall₂ (fun x y => f x = some y) xs ys := by
  induction xs generalizing ys with
  | nil =>
    rw [List.mapM_nil, List.forall₂_nil_left_iff]
    exact ⟨fun h => (Option.some.inj h).symm, fun h => h ▸ rfl⟩
  | cons x rest ih =>
    rw [List.mapM_cons, bind_eq_some, List.forall₂_cons_left_iff]
    constructor
    · intro h
      obtain ⟨y, hy, h⟩ := h
      obtain ⟨ys', hrest, h⟩ := bind_eq_some.1 h
      exact ⟨y, ys', hy, ih.1 hrest, (Option.some.inj h).symm⟩
    · intro h
      obtain ⟨y, ys', hy, hrest, rfl⟩ := h
      exact ⟨y, hy, bind_eq_some.2 ⟨ys', ih.2 hrest, rfl⟩⟩

theorem mapM_eq_ok {f : α → Except ε β} {xs : List α} {ys : List β} :
    xs.mapM f = .ok ys ↔ List.Forall₂ (fun x y => f x = .ok y) xs ys := by
  induction xs generalizing ys with
  | nil =>
    rw [List.mapM_nil, pure_eq_ok, List.forall₂_nil_left_iff]
    exact eq_comm
  | cons x rest ih =>
    rw [List.mapM_cons, bind_eq_ok, List.forall₂_cons_left_iff]
    constructor
    · intro h
      obtain ⟨y, hy, h⟩ := h
      obtain ⟨ys', hrest, h⟩ := bind_eq_ok.1 h
      exact ⟨y, ys', hy, ih.1 hrest, (pure_eq_ok.1 h).symm⟩
    · intro h
      obtain ⟨y, ys', hy, hrest, rfl⟩ := h
      exact ⟨y, hy, bind_eq_ok.2 ⟨ys', ih.2 hrest, rfl⟩⟩

/-- Elements that a test which may throw has passed. -/
theorem filterM_eq_ok {f : α → Except ε Bool} {xs ys : List α} :
    xs.filterM f = .ok ys ↔
      (∀ x ∈ xs, ∃ b, f x = .ok b) ∧ ys = xs.filter fun x => (f x).toOption.getD false := by
  have hgo : ∀ acc zs : List α, List.filterAuxM f xs acc = .ok zs ↔ (∀ x ∈ xs, ∃ b, f x = .ok b) ∧
      zs = (xs.filter fun x => (f x).toOption.getD false).reverse ++ acc := by
    induction xs with
    | nil => exact fun acc zs => ⟨fun h => ⟨nofun, by cases h; rfl⟩, fun h => h.2 ▸ rfl⟩
    | cons x rest ih =>
      intro acc zs
      rw [List.filterAuxM, bind_eq_ok, List.forall_mem_cons]
      constructor
      · intro h
        obtain ⟨b, hb, h⟩ := h
        obtain ⟨hall, rfl⟩ := (ih _ _).1 h
        refine ⟨⟨⟨b, hb⟩, hall⟩, ?_⟩
        cases b <;> simp [hb, Except.toOption]
      · intro h
        obtain ⟨⟨⟨b, hb⟩, hall⟩, rfl⟩ := h
        refine ⟨b, hb, (ih _ _).2 ⟨hall, ?_⟩⟩
        cases b <;> simp [hb, Except.toOption]
  rw [List.filterM, bind_eq_ok]
  constructor
  · intro h
    obtain ⟨zs, hzs, h⟩ := h
    obtain ⟨hall, rfl⟩ := (hgo _ _).1 hzs
    refine ⟨hall, ?_⟩
    rw [← pure_eq_ok.1 h, List.append_nil, List.reverse_reverse]
  · intro h
    obtain ⟨hall, rfl⟩ := h
    refine ⟨_, (hgo _ _).2 ⟨hall, rfl⟩, ?_⟩
    rw [pure_eq_ok, List.append_nil, List.reverse_reverse]

theorem forM_eq_ok {f : α → Except ε Unit} {xs : List α} :
    xs.forM f = .ok () ↔ ∀ x ∈ xs, f x = .ok () := by
  induction xs with
  | nil => exact ⟨fun _ _ hx => (nomatch hx), fun _ => rfl⟩
  | cons x rest ih =>
    rw [show (x :: rest).forM f = (f x >>= fun _ => rest.forM f) from rfl, bind_eq_ok,
      List.forall_mem_cons]
    constructor
    · intro h
      obtain ⟨_, hx, hrest⟩ := h
      exact ⟨hx, ih.1 hrest⟩
    · intro h
      obtain ⟨hx, hrest⟩ := h
      exact ⟨(), hx, ih.2 hrest⟩

/-- An error among several comes from one of the parts. -/
theorem exists_of_forM_eq_error {f : α → Except ε Unit} {xs : List α} {error : ε}
    (h : xs.forM f = .error error) : ∃ x ∈ xs, f x = .error error := by
  induction xs with
  | nil => cases h
  | cons x rest ih =>
    rw [show (x :: rest).forM f = (f x >>= fun _ => rest.forM f) from rfl, bind_eq_error] at h
    rcases h with hx | ⟨_, -, hrest⟩
    · exact ⟨x, List.mem_cons_self, hx⟩
    · obtain ⟨y, hy, herror⟩ := ih hrest
      exact ⟨y, List.mem_cons_of_mem _ hy, herror⟩

theorem forM_map {γ : Type} (f : α → Except ε Unit) (g : γ → α) (xs : List γ) :
    (xs.map g).forM f = xs.forM (f ∘ g) := by
  induction xs with
  | nil => rfl
  | cons x rest ih => exact congrArg (fun e => f (g x) >>= fun _ => e) ih

end SecureBoot

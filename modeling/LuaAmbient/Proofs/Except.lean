/-
Computations that may fail.

Main results:

* `LuaAmbient.bind_eq_ok`, `LuaAmbient.map_eq_ok_iff` — computations in two steps;
* `LuaAmbient.eq_ok_of_toOption`, `LuaAmbient.exists_ok_of_toOption_map` — a computation that has been
  evaluated;
* `LuaAmbient.mapM_eq_ok_iff` — **all of them succeed exactly if each one does**;
* `LuaAmbient.bind_eq_error`, `LuaAmbient.exists_of_mapM_eq_error` — where a failure comes from;
* `LuaAmbient.exists_mapM_eq_ok`, `LuaAmbient.forall_of_mapM_eq_ok`,
  `LuaAmbient.exists_mem_of_mapM_eq_ok` — how this is shown and used;
* `LuaAmbient.filterM_eq_ok` — a filter whose tests all succeed.
-/

import Mathlib.Data.List.Forall2
import Mathlib.Tactic.Common

set_option relaxedAutoImplicit false
set_option autoImplicit false

namespace LuaAmbient

variable {ε α β : Type} {f : α → Except ε β} {l : List α}

/-- A computation in two steps. -/
theorem bind_eq_ok {x : Except ε α} {b : β} (h : x >>= f = .ok b) :
    ∃ a, x = .ok a ∧ f a = .ok b := by
  cases x with
  | error e => simp [bind, Except.bind] at h
  | ok a => exact ⟨a, rfl, h⟩

/-- Two steps fail in the first one or in the second one. -/
theorem bind_eq_error {x : Except ε α} {e : ε} (h : x >>= f = .error e) :
    x = .error e ∨ ∃ a, x = .ok a ∧ f a = .error e := by
  cases x with
  | error e' => exact .inl (congrArg Except.error (Except.error.inj h))
  | ok a => exact .inr ⟨a, rfl, h⟩

/-- A step that is followed by one that cannot fail. -/
theorem eq_error_of_bind_pure {g : α → β} {x : Except ε α} {e : ε}
    (h : (x >>= fun a => pure (g a)) = .error e) : x = .error e := by
  rcases bind_eq_error h with h | ⟨a, -, h⟩
  · exact h
  · exact absurd h (by simp [pure, Except.pure])

theorem map_eq_ok_iff {g : α → β} (hg : ∀ a b, g a = g b → a = b) {x : Except ε α} {b : α} :
    (x >>= fun a => Except.ok (g a)) = .ok (g b) ↔ x = .ok b := by
  constructor
  · intro h
    obtain ⟨a, ha, heq⟩ := bind_eq_ok h
    rw [ha, hg a b (Except.ok.inj heq)]
  · rintro rfl
    rfl

theorem eq_ok_of_map_some {x : Except ε α} {a : α} (h : some <$> x = .ok (some a)) : x = .ok a := by
  obtain ⟨b, rfl, h⟩ := bind_eq_ok h
  obtain rfl := Option.some.inj (Except.ok.inj h)
  rfl

theorem mapM_congr {g : α → Except ε β} (h : ∀ a ∈ l, f a = g a) : l.mapM f = l.mapM g := by
  induction l with
  | nil => rfl
  | cons a l ih =>
      rw [List.mapM_cons, List.mapM_cons, h a List.mem_cons_self,
        ih fun b hb => h b (List.mem_cons_of_mem _ hb)]

theorem eq_ok_of_toOption {e : Except ε α} {a : α} (h : e.toOption = some a) : e = .ok a := by
  cases e with
  | error _ => simp [Except.toOption] at h
  | ok b => exact congrArg Except.ok (Option.some.inj h)

/-- What is known of the value of a computation that succeeds. -/
theorem exists_ok_of_toOption_map {e : Except ε α} {g : α → β} {b : β}
    (h : e.toOption.map g = some b) : ∃ a, e = .ok a ∧ g a = b := by
  obtain ⟨a, ha, hg⟩ := Option.map_eq_some_iff.1 h
  exact ⟨a, eq_ok_of_toOption ha, hg⟩

theorem mapM_eq_ok_iff {r : List β} :
    l.mapM f = .ok r ↔ List.Forall₂ (fun a b => f a = .ok b) l r := by
  induction l generalizing r with
  | nil => simp [pure, Except.pure, eq_comm]
  | cons a l ih =>
      rw [List.mapM_cons]
      cases ha : f a with
      | error e => simp [bind, Except.bind, List.forall₂_cons_left_iff, ha]
      | ok b =>
          cases hl : l.mapM f with
          | error e =>
              simp only [bind, Except.bind, reduceCtorEq, List.forall₂_cons_left_iff, ha,
                Except.ok.injEq, false_iff, not_exists, not_and]
              rintro c r' rfl hr -
              simp [ih.2 hr] at hl
          | ok bs =>
              simp only [bind, Except.bind, pure, Except.pure, Except.ok.injEq,
                List.forall₂_cons_left_iff, ha]
              constructor
              · rintro rfl
                exact ⟨b, bs, rfl, ih.1 hl, rfl⟩
              · rintro ⟨c, cs, rfl, hc, rfl⟩
                rw [ih.2 hc] at hl
                rw [Except.ok.inj hl]

theorem exists_of_mapM_eq_error {e : ε} (h : l.mapM f = .error e) : ∃ a ∈ l, f a = .error e := by
  induction l with
  | nil => exact absurd h (by simp [pure, Except.pure])
  | cons a l ih =>
      rw [List.mapM_cons] at h
      rcases bind_eq_error h with ha | ⟨b, -, hl⟩
      · exact ⟨a, List.mem_cons_self, ha⟩
      · obtain ⟨c, hc, hfc⟩ := ih (eq_error_of_bind_pure hl)
        exact ⟨c, List.mem_cons_of_mem _ hc, hfc⟩

theorem exists_mapM_eq_ok (h : ∀ a ∈ l, ∃ b, f a = .ok b) : ∃ r, l.mapM f = .ok r := by
  simp only [mapM_eq_ok_iff]
  induction l with
  | nil => exact ⟨[], .nil⟩
  | cons a l ih =>
      obtain ⟨b, hb⟩ := h a List.mem_cons_self
      obtain ⟨r, hr⟩ := ih fun c hc => h c (List.mem_cons_of_mem _ hc)
      exact ⟨b :: r, .cons hb hr⟩

theorem forall_of_mapM_eq_ok {p : β → Prop} {r : List β} (h : l.mapM f = .ok r)
    (hf : ∀ a ∈ l, ∀ b, f a = .ok b → p b) : ∀ b ∈ r, p b := by
  induction mapM_eq_ok_iff.1 h with
  | nil => simp
  | @cons a b l r hab hl ih =>
      intro c hc
      rcases List.mem_cons.1 hc with rfl | hc
      · exact hf a List.mem_cons_self c hab
      · exact ih (mapM_eq_ok_iff.2 hl) (fun a' ha' => hf a' (List.mem_cons_of_mem _ ha')) c hc

theorem exists_mem_of_mapM_eq_ok {r : List β} (h : l.mapM f = .ok r) {a : α} (ha : a ∈ l) :
    ∃ b ∈ r, f a = .ok b := by
  induction mapM_eq_ok_iff.1 h with
  | nil => simp at ha
  | @cons c b l r hcb hl ih =>
      rcases List.mem_cons.1 ha with rfl | ha
      · exact ⟨b, List.mem_cons_self, hcb⟩
      · obtain ⟨b', hb', hab'⟩ := ih (mapM_eq_ok_iff.2 hl) ha
        exact ⟨b', List.mem_cons_of_mem b hb', hab'⟩

theorem filterAuxM_eq_ok {f : α → Except ε Bool} {p : α → Bool} (h : ∀ a ∈ l, f a = .ok (p a))
    (done : List α) : List.filterAuxM f l done = .ok ((l.filter p).reverse ++ done) := by
  induction l generalizing done with
  | nil => rfl
  | cons a l ih =>
      obtain ⟨ha, hl⟩ := List.forall_mem_cons.1 h
      rw [List.filterAuxM, ha]
      change List.filterAuxM f l (cond (p a) (a :: done) done) = _
      rw [ih hl, List.filter_cons]
      cases p a with
      | false => rfl
      | true => simp

/-- A filter whose tests all succeed. -/
theorem filterM_eq_ok {f : α → Except ε Bool} {p : α → Bool} (h : ∀ a ∈ l, f a = .ok (p a)) :
    l.filterM f = .ok (l.filter p) := by
  rw [List.filterM, filterAuxM_eq_ok h]
  simp [bind, Except.bind, pure, Except.pure]

end LuaAmbient

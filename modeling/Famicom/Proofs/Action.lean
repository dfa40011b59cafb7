import Mathlib.Tactic
import Famicom.Action

/-! Laws of operations: how a sequence runs, what it keeps when each of its
parts keeps it, and when it fails without an effect. -/

namespace Famicom.Action

variable {ε σ α β γ : Type}

@[simp] theorem pure_apply (a : α) (s : σ) : (pure a : Action ε σ α) s = ⟨.ok a, s, []⟩ := rfl

@[simp] theorem fail_apply (e : ε) (s : σ) : (fail e : Action ε σ α) s = ⟨.error e, s, []⟩ := rfl

@[simp] theorem report_apply (e : Event) (s : σ) :
    (report e : Action ε σ Unit) s = ⟨.ok (), s, [e]⟩ := rfl

@[simp] theorem view_apply (f : σ → α) (s : σ) : (view f : Action ε σ α) s = ⟨.ok (f s), s, []⟩ :=
  rfl

@[simp] theorem inspect_apply (f : σ → Except ε α) (s : σ) :
    (inspect f : Action ε σ α) s = ⟨f s, s, []⟩ := rfl

@[simp] theorem update_apply (f : σ → σ) (s : σ) :
    (update f : Action ε σ Unit) s = ⟨.ok (), f s, []⟩ := rfl

@[simp] theorem ite_apply (p : Prop) [Decidable p] (x y : Action ε σ α) (s : σ) :
    (if p then x else y) s = if p then x s else y s := by
  split <;> rfl

theorem bind_of_ok {x : Action ε σ α} {f : α → Action ε σ β} {s t : σ} {a : α} {es : List Event}
    (h : x s = ⟨.ok a, t, es⟩) :
    (x >>= f) s = ⟨(f a t).answer, (f a t).state, es ++ (f a t).events⟩ := by
  change Action.bind x f s = _
  unfold Action.bind
  rw [h]

/-- A first part without events leaves all to the second. -/
theorem bind_of_quiet {x : Action ε σ α} {f : α → Action ε σ β} {s t : σ} {a : α}
    (h : x s = ⟨.ok a, t, []⟩) : (x >>= f) s = f a t :=
  bind_of_ok h

theorem bind_of_error {x : Action ε σ α} {f : α → Action ε σ β} {s t : σ} {e : ε}
    {es : List Event} (h : x s = ⟨.error e, t, es⟩) : (x >>= f) s = ⟨.error e, t, es⟩ := by
  change Action.bind x f s = _
  unfold Action.bind
  rw [h]

@[simp] theorem view_bind (g : σ → α) (f : α → Action ε σ β) (s : σ) :
    (view g >>= f) s = f (g s) s := rfl

@[simp] theorem update_bind (g : σ → σ) (f : Unit → Action ε σ β) (s : σ) :
    (update g >>= f) s = f () (g s) := rfl

theorem inspect_bind {g : σ → Except ε α} {f : α → Action ε σ β} {s : σ} {a : α}
    (h : g s = .ok a) : (inspect g >>= f) s = f a s := by
  rw [bind_of_ok (show inspect g s = ⟨.ok a, s, []⟩ by rw [inspect_apply, h])]
  rfl

theorem forM_update (f : α → σ → σ) (xs : List α) (s : σ) :
    (xs.forM fun x => update (f x) : Action ε σ Unit) s =
      ⟨.ok (), xs.foldl (fun s x => f x s) s, []⟩ := by
  induction xs generalizing s with
  | nil => rfl
  | cons x xs ih =>
    change (update (f x) >>= fun _ => xs.forM fun x => update (f x) : Action ε σ Unit) s = _
    rw [update_bind]
    exact ih (f x s)

/-- A sequence that answers has run both of its parts. -/
theorem ok_of_bind {x : Action ε σ α} {f : α → Action ε σ β} {s t : σ} {b : β}
    {es : List Event} (h : (x >>= f) s = ⟨.ok b, t, es⟩) :
    ∃ a u es₁ es₂, x s = ⟨.ok a, u, es₁⟩ ∧ f a u = ⟨.ok b, t, es₂⟩ ∧ es = es₁ ++ es₂ := by
  rcases hx : x s with ⟨a | a, u, es₁⟩
  -- a first part that fails is the end of the sequence, which then does not answer
  · rw [bind_of_error hx] at h
    simp at h
  · rw [bind_of_ok hx] at h
    rcases hf : f a u with ⟨r, v, es₂⟩
    simp only [hf, Outcome.mk.injEq] at h
    obtain ⟨rfl, rfl, rfl⟩ := h
    exact ⟨a, u, es₁, es₂, rfl, hf, rfl⟩

/-- A sequence that fails has failed in its first part or in its second. -/
theorem error_of_bind {x : Action ε σ α} {f : α → Action ε σ β} {s t : σ} {e : ε}
    {es : List Event} (h : (x >>= f) s = ⟨.error e, t, es⟩) : x s = ⟨.error e, t, es⟩ ∨
      ∃ a u es₁ es₂, x s = ⟨.ok a, u, es₁⟩ ∧ f a u = ⟨.error e, t, es₂⟩ ∧ es = es₁ ++ es₂ := by
  rcases hx : x s with ⟨e' | a, u, es₁⟩
  · left
    rw [bind_of_error hx] at h
    simpa using h
  · right
    rw [bind_of_ok hx] at h
    rcases hf : f a u with ⟨r, v, es₂⟩
    simp only [hf, Outcome.mk.injEq] at h
    obtain ⟨rfl, rfl, rfl⟩ := h
    exact ⟨a, u, es₁, es₂, rfl, hf, rfl⟩

private theorem id_map_action (x : Action ε σ α) : id <$> x = x := by
  funext s
  change Action.bind x (fun a => Action.pure a) s = x s
  unfold Action.bind
  rcases x s with ⟨_ | _, _, es⟩ <;> simp [Action.pure]

private theorem bind_assoc_action (x : Action ε σ α) (f : α → Action ε σ β)
    (g : β → Action ε σ γ) : x >>= f >>= g = x >>= fun a => f a >>= g := by
  funext s
  change Action.bind (Action.bind x f) g s = Action.bind x (fun a => Action.bind (f a) g) s
  unfold Action.bind
  rcases x s with ⟨_ | a, t, es⟩
  · rfl
  · dsimp only
    rcases f a t with ⟨_ | b, u, es'⟩
    · rfl
    · simp

instance : LawfulMonad (Action ε σ) :=
  LawfulMonad.mk' _ id_map_action (fun _ _ => rfl) bind_assoc_action

/-- From every state in `I` the operation stays in `I`, and it fails only with faults in `E`. -/
def Keeps (I : σ → Prop) (E : ε → Prop) (x : Action ε σ α) : Prop :=
  ∀ s, I s → I (x s).state ∧ ∀ e, (x s).answer = .error e → E e

variable {I : σ → Prop} {E : ε → Prop}

theorem keeps_pure (a : α) : Keeps I E (pure a : Action ε σ α) :=
  fun _ hs => ⟨hs, by simp⟩

theorem keeps_report (e : Event) : Keeps I E (report e : Action ε σ Unit) :=
  fun _ hs => ⟨hs, by simp⟩

theorem keeps_view (f : σ → α) : Keeps I E (view f : Action ε σ α) :=
  fun _ hs => ⟨hs, by simp⟩

theorem keeps_fail {e : ε} (he : E e) : Keeps I E (fail e : Action ε σ α) :=
  fun _ hs => ⟨hs, by simp [he]⟩

theorem keeps_inspect {f : σ → Except ε α} (h : ∀ s, I s → ∀ e, f s = .error e → E e) :
    Keeps I E (inspect f) :=
  fun s hs => ⟨hs, h s hs⟩

theorem keeps_update {f : σ → σ} (h : ∀ s, I s → I (f s)) :
    Keeps I E (update f : Action ε σ Unit) :=
  fun s hs => ⟨h s hs, by simp⟩

/-- What follows may rely on the answer being one that was given in `I`. -/
theorem keeps_bind_of {x : Action ε σ α} {f : α → Action ε σ β} (hx : Keeps I E x)
    (hf : ∀ s a, I s → (x s).answer = .ok a → Keeps I E (f a)) : Keeps I E (x >>= f) := by
  intro s hs
  have hx' := hx s hs
  rcases h : x s with ⟨e | a, t, es⟩
  · rw [bind_of_error h]
    simpa [h] using hx'
  · rw [bind_of_ok h]
    rw [h] at hx'
    exact hf s a hs (by rw [h]) t hx'.1

theorem keeps_bind {x : Action ε σ α} {f : α → Action ε σ β} (hx : Keeps I E x)
    (hf : ∀ a, Keeps I E (f a)) : Keeps I E (x >>= f) :=
  keeps_bind_of hx fun _ a _ _ => hf a

theorem keeps_ite {p : Prop} [Decidable p] {x y : Action ε σ α} (hx : p → Keeps I E x)
    (hy : ¬p → Keeps I E y) : Keeps I E (if p then x else y) := by
  split
  · exact hx ‹_›
  · exact hy ‹_›

theorem keeps_mapM {ι : Type} {f : ι → Action ε σ α} (l : List ι)
    (h : ∀ i, Keeps I E (f i)) : Keeps I E (l.mapM f) := by
  induction l with
  | nil =>
    rw [List.mapM_nil]
    exact keeps_pure _
  | cons i l ih =>
    rw [List.mapM_cons]
    exact keeps_bind (h i) fun a => keeps_bind ih fun as => keeps_pure _

theorem Keeps.mono {x : Action ε σ α} {F : ε → Prop} (h : Keeps I E x) (hF : ∀ e, E e → F e) :
    Keeps I F x :=
  fun s hs => ⟨(h s hs).1, fun e he => hF e ((h s hs).2 e he)⟩

theorem Keeps.and {x : Action ε σ α} {J : σ → Prop} {F : ε → Prop} (h : Keeps I E x)
    (h' : Keeps J F x) : Keeps (fun s => I s ∧ J s) (fun e => E e ∧ F e) x :=
  fun s hs => ⟨⟨(h s hs.1).1, (h' s hs.2).1⟩, fun e he => ⟨(h s hs.1).2 e he, (h' s hs.2).2 e he⟩⟩

/-- An operation that cannot fail answers. -/
theorem Keeps.ok {x : Action ε σ α} (h : Keeps I (fun _ => False) x) {s : σ} (hs : I s) :
    ∃ a t es, x s = ⟨.ok a, t, es⟩ ∧ I t := by
  rcases hx : x s with ⟨e | a, t, es⟩
  · exact ((h s hs).2 e (by rw [hx])).elim
  · refine ⟨a, t, es, rfl, ?_⟩
    have ht := (h s hs).1
    rwa [hx] at ht

/-- All that an operation can answer satisfies `P`. -/
def Answers (P : α → Prop) (x : Action ε σ α) : Prop := ∀ s a, (x s).answer = .ok a → P a

theorem answers_pure {P : α → Prop} {a : α} (h : P a) : Answers P (pure a : Action ε σ α) := by
  intro s b hb
  cases hb
  exact h

theorem answers_fail {P : α → Prop} (e : ε) : Answers P (fail e : Action ε σ α) :=
  fun _ _ h => by cases h

theorem answers_bind {P : β → Prop} {x : Action ε σ α} {f : α → Action ε σ β}
    (h : ∀ a, Answers P (f a)) : Answers P (x >>= f) := by
  intro s b hb
  rcases hx : x s with ⟨e | a, t, es⟩
  · rw [bind_of_error hx] at hb
    cases hb
  · rw [bind_of_ok hx] at hb
    exact h a t b hb

/-! Operations that fail before they have had any effect. -/

variable {s : σ} {F : σ → Prop}

/-- The operation fails exactly on the states in `F`, and leaves those as they were. -/
def Refuses (F : σ → Prop) (x : Action ε σ α) : Prop :=
  ∀ s, (F s → ∃ e es, x s = ⟨.error e, s, es⟩) ∧ (¬F s → ∃ a t es, x s = ⟨.ok a, t, es⟩)

theorem refuses_of_ok {x : Action ε σ α} (h : ∀ s, ∃ a t es, x s = ⟨.ok a, t, es⟩) :
    Refuses (fun _ => False) x :=
  fun s => ⟨False.elim, fun _ => h s⟩

theorem refuses_fail (e : ε) : Refuses (fun _ => True) (fail e : Action ε σ α) :=
  fun _ => ⟨fun _ => ⟨e, [], rfl⟩, fun h => absurd trivial h⟩

theorem refuses_update (f : σ → σ) : Refuses (fun _ => False) (update f : Action ε σ Unit) :=
  refuses_of_ok fun s => ⟨(), f s, [], rfl⟩

theorem Refuses.congr {x : Action ε σ α} {G : σ → Prop} (h : Refuses F x)
    (hiff : ∀ s, G s ↔ F s) : Refuses G x :=
  fun s => ⟨fun hG => (h s).1 ((hiff s).mp hG), fun hG => (h s).2 fun hF => hG ((hiff s).mpr hF)⟩

/-- What follows cannot fail any more. -/
theorem refuses_bind {x : Action ε σ α} {f : α → Action ε σ β} (hx : Refuses F x)
    (hf : ∀ a, Refuses (fun _ => False) (f a)) : Refuses F (x >>= f) := by
  intro s
  constructor
  · intro hs
    obtain ⟨e, es, h⟩ := (hx s).1 hs
    exact ⟨e, es, bind_of_error h⟩
  · intro hs
    obtain ⟨a, t, es, h⟩ := (hx s).2 hs
    obtain ⟨b, u, es', h'⟩ := (hf a t).2 id
    rw [bind_of_ok h, h']
    exact ⟨b, u, es ++ es', rfl⟩

theorem refuses_report_bind {x : Action ε σ α} (e : Event) (h : Refuses F x) :
    Refuses F (do report e; x) := by
  intro s
  constructor
  · intro hs
    obtain ⟨e', es, hx⟩ := (h s).1 hs
    rw [bind_of_ok (report_apply e s), hx]
    exact ⟨e', _, rfl⟩
  · intro hs
    obtain ⟨a, t, es, hx⟩ := (h s).2 hs
    rw [bind_of_ok (report_apply e s), hx]
    exact ⟨a, t, _, rfl⟩

theorem state_of_refuses {x : Action ε σ α} (h : Refuses F x) {e : ε}
    (he : (x s).answer = .error e) : (x s).state = s := by
  by_cases hs : F s
  · obtain ⟨e', es, hx⟩ := (h s).1 hs
    rw [hx]
  · obtain ⟨a, t, es, hx⟩ := (h s).2 hs
    rw [hx] at he
    cases he

theorem error_iff_of_refuses {x : Action ε σ α} (h : Refuses F x) :
    (∃ e, (x s).answer = .error e) ↔ F s := by
  constructor
  · rintro ⟨e, he⟩
    by_contra hs
    obtain ⟨a, t, es, hx⟩ := (h s).2 hs
    rw [hx] at he
    cases he
  · intro hs
    obtain ⟨e, es, hx⟩ := (h s).1 hs
    exact ⟨e, by rw [hx]⟩

variable {ι : Type} {f : ι → Action ε σ α}

/-- Operations that leave the state alone do so one after another. -/
theorem mapM_of_quiet {l : List ι} (h : ∀ i ∈ l, ∃ a es, f i s = ⟨.ok a, s, es⟩) :
    ∃ as es, l.mapM f s = ⟨.ok as, s, es⟩ := by
  induction l with
  | nil => exact ⟨[], [], by rw [List.mapM_nil]; rfl⟩
  | cons i l ih =>
    obtain ⟨a, es, hi⟩ := h i List.mem_cons_self
    obtain ⟨as, es', hl⟩ := ih fun j hj => h j (List.mem_cons_of_mem i hj)
    rw [List.mapM_cons, bind_of_ok hi, bind_of_ok hl]
    exact ⟨_, _, rfl⟩

/-- Operations that only look at the state answer, one after another, what each of them sees. -/
theorem mapM_of_seen {g : ι → α} {l : List ι} (h : ∀ i ∈ l, f i s = ⟨.ok (g i), s, []⟩) :
    l.mapM f s = ⟨.ok (l.map g), s, []⟩ := by
  induction l with
  | nil =>
    rw [List.mapM_nil]
    rfl
  | cons i l ih =>
    have hi := h i List.mem_cons_self
    have hl := ih fun j hj => h j (List.mem_cons_of_mem i hj)
    rw [List.mapM_cons, bind_of_quiet hi, bind_of_quiet hl]
    rfl

/-- The first operation that fails ends the sequence, in the state in which it began if nothing
before it has had an effect. -/
theorem mapM_of_refused {l l' : List ι} {i : ι} (h : ∀ j ∈ l, ∃ a es, f j s = ⟨.ok a, s, es⟩)
    (hi : ∃ e es, f i s = ⟨.error e, s, es⟩) :
    ∃ e es, (l ++ i :: l').mapM f s = ⟨.error e, s, es⟩ := by
  induction l with
  | nil =>
    obtain ⟨e, es, hi⟩ := hi
    rw [List.nil_append, List.mapM_cons, bind_of_error hi]
    exact ⟨e, es, rfl⟩
  | cons j l ih =>
    obtain ⟨a, es, hj⟩ := h j List.mem_cons_self
    obtain ⟨e, es', hl⟩ := ih fun k hk => h k (List.mem_cons_of_mem j hk)
    rw [List.cons_append, List.mapM_cons, bind_of_ok hj, bind_of_error hl]
    exact ⟨e, _, rfl⟩

end Famicom.Action

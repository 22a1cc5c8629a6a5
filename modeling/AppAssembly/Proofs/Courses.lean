import AppAssembly.Proofs.Acts
import Mathlib.Data.List.Infix

/-!
# Courses

An act that is run for each element of a list begins with the elements in order and stops at the
first failure. The course of such a run is what was begun, each element with the state that it
found. So the elements of a course are the first ones of the list, only the last of them may have
failed, and whether it did is the outcome of the run.
-/

namespace AppAssembly.Act

variable {σ α β γ : Type}

/-! ## Runs along lists -/

theorem bind_ok {act : Act σ α} {next : α → Act σ β} {s t : σ} {a : α}
    (h : act s = (.ok a, t)) : (act >>= next) s = next a t := by
  rw [bind_apply, h]

theorem bind_ok_iff {act : Act σ α} {next : α → Act σ β} {s t : σ} {b : β} :
    (act >>= next) s = (.ok b, t) ↔ ∃ a u, act s = (.ok a, u) ∧ next a u = (.ok b, t) := by
  rw [bind_apply]
  rcases act s with ⟨_ | a, u⟩
  · simp
  · simp

theorem bind_error_iff {act : Act σ α} {next : α → Act σ β} {s t : σ} {e : Error} :
    (act >>= next) s = (.error e, t) ↔
      act s = (.error e, t) ∨ ∃ a u, act s = (.ok a, u) ∧ next a u = (.error e, t) := by
  rw [bind_apply]
  rcases act s with ⟨_ | a, u⟩
  · simp
  · simp

theorem mapList_cons_ok {act : α → Act σ β} {a : α} {as : List α} {bs : List β} {s t : σ}
    (h : mapList (a :: as) act s = (.ok bs, t)) :
    ∃ b u rest, act a s = (.ok b, u) ∧ mapList as act u = (.ok rest, t) ∧ bs = b :: rest := by
  obtain ⟨b, u, hfirst, h⟩ := bind_ok_iff.mp h
  obtain ⟨rest, _, hrest, h⟩ := bind_ok_iff.mp h
  cases h
  exact ⟨b, u, rest, hfirst, hrest, rfl⟩

theorem mapList_cons_error {act : α → Act σ β} {a : α} {as : List α} {s t : σ} {e : Error}
    (h : mapList (a :: as) act s = (.error e, t)) :
    act a s = (.error e, t) ∨
      ∃ b u, act a s = (.ok b, u) ∧ mapList as act u = (.error e, t) := by
  obtain hfirst | ⟨b, u, hfirst, h⟩ := bind_error_iff.mp h
  · exact .inl hfirst
  · obtain hrest | ⟨_, _, _, h⟩ := bind_error_iff.mp h
    · exact .inr ⟨b, u, hfirst, hrest⟩
    · cases h

theorem mapError_ok {act : Act σ α} {f : Error → Error} {s t : σ} {a : α}
    (h : act s = (.ok a, t)) : act.mapError f s = (.ok a, t) := by
  rw [mapError, h]

theorem mapError_error {act : Act σ α} {f : Error → Error} {s t : σ} {e : Error}
    (h : act s = (.error e, t)) : act.mapError f s = (.error (f e), t) := by
  rw [mapError, h]

theorem bind_assoc (first : Act σ α) (second : α → Act σ β) (third : β → Act σ γ) :
    first >>= second >>= third = first >>= fun a => second a >>= third := by
  funext s
  simp only [bind_apply]
  cases first s with
  | mk r t => cases r <;> rfl

theorem forEach_append (as bs : List α) (act : α → Act σ Unit) :
    forEach (as ++ bs) act = forEach as act >>= fun _ => forEach bs act := by
  induction as with
  | nil => rfl
  | cons a as ih =>
      show (act a >>= fun _ => forEach (as ++ bs) act) =
        (act a >>= fun _ => forEach as act) >>= fun _ => forEach bs act
      rw [bind_assoc, ih]

theorem mapList_append (as bs : List α) (act : α → Act σ β) :
    mapList (as ++ bs) act =
      mapList as act >>= fun first => mapList bs act >>= fun second => pure (first ++ second) := by
  induction as with
  | nil =>
      funext s
      show mapList bs act s = (mapList bs act >>= pure) s
      rw [bind_apply]
      rcases mapList bs act s with ⟨_ | _, _⟩ <;> rfl
  | cons a as ih =>
      show (act a >>= fun b => mapList (as ++ bs) act >>= fun rest => pure (b :: rest)) =
        (act a >>= fun b => mapList as act >>= fun rest => pure (b :: rest)) >>= fun first =>
          mapList bs act >>= fun second => pure (first ++ second)
      rw [ih]
      simp only [bind_assoc]
      rfl

theorem forEach_map (f : α → β) (as : List α) (act : β → Act σ Unit) :
    forEach (as.map f) act = forEach as fun a => act (f a) := by
  induction as with
  | nil => rfl
  | cons a as ih =>
      show (act (f a) >>= fun _ => forEach (as.map f) act) = _
      rw [ih]
      rfl

theorem forEach_flatMap (f : α → List β) (as : List α) (act : β → Act σ Unit) :
    forEach (as.flatMap f) act = forEach as fun a => forEach (f a) act := by
  induction as with
  | nil => rfl
  | cons a as ih =>
      rw [List.flatMap_cons, forEach_append, ih]
      rfl

/-- Acts that do the same at every state that can come up make the same run. -/
theorem forEach_congr {I : σ → Prop} {as : List α} {act other : α → Act σ Unit}
    (hkeeps : ∀ a ∈ as, ∀ s, I s → I (act a s).2)
    (hsame : ∀ a ∈ as, ∀ s, I s → act a s = other a s) {s : σ} (hs : I s) :
    forEach as act s = forEach as other s := by
  induction as generalizing s with
  | nil => rfl
  | cons a as ih =>
      obtain ⟨hkeep, hkeeps⟩ := List.forall_mem_cons.mp hkeeps
      obtain ⟨hfirst, hsame⟩ := List.forall_mem_cons.mp hsame
      have hnext := hkeep s hs
      show (act a >>= fun _ => forEach as act) s = (other a >>= fun _ => forEach as other) s
      rw [bind_apply, bind_apply, ← hfirst s hs]
      rcases hrun : act a s with ⟨r, t⟩
      rw [hrun] at hnext
      cases r with
      | error e => rfl
      | ok _ => exact ih hkeeps hsame hnext

/-! ## The course of a run -/

/-- What a run along a list begins, each element with the state it finds. -/
def course (act : α → Act σ Unit) : List α → σ → List (α × σ)
  | [], _ => []
  | a :: as, s =>
      (a, s) ::
        match act a s with
        | (.ok (), t) => course act as t
        | (.error _, _) => []

variable {act : α → Act σ Unit} {as : List α} {s t : σ}

theorem forEach_cons_ok {a : α} (h : act a s = (.ok (), t)) :
    forEach (a :: as) act s = forEach as act t := by
  show (act a >>= fun _ => forEach as act) s = _
  rw [bind_apply, h]

theorem forEach_cons_error {a : α} {e : Error} (h : act a s = (.error e, t)) :
    forEach (a :: as) act s = (.error e, t) :=
  bind_error h

theorem course_cons_ok {a : α} (h : act a s = (.ok (), t)) :
    course act (a :: as) s = (a, s) :: course act as t := by
  rw [course, h]

theorem course_cons_error {a : α} {e : Error} (h : act a s = (.error e, t)) :
    course act (a :: as) s = [(a, s)] := by
  rw [course, h]

theorem course_begins (act : α → Act σ Unit) (as : List α) (s : σ) :
    (course act as s).map Prod.fst <+: as := by
  induction as generalizing s with
  | nil => exact List.prefix_rfl
  | cons a as ih =>
      rcases hrun : act a s with ⟨_ | _, t⟩
      · rw [course_cons_error hrun]
        exact ⟨as, rfl⟩
      · rw [course_cons_ok hrun, List.map_cons, List.prefix_cons_inj]
        exact ih t

/-- A run succeeds exactly if everything that it began did. -/
theorem forEach_eq_ok_iff :
    (forEach as act s).1 = .ok () ↔ ∀ m ∈ course act as s, (act m.1 m.2).1 = .ok () := by
  induction as generalizing s with
  | nil => simp [forEach, course]
  | cons a as ih =>
      rcases hrun : act a s with ⟨_ | _, t⟩
      · simp [forEach_cons_error hrun, course_cons_error hrun, hrun]
      · simp [forEach_cons_ok hrun, course_cons_ok hrun, hrun, ih]

/-- A run that fails does so at something that it began. -/
theorem exists_failed {e : Error} (h : (forEach as act s).1 = .error e) :
    ∃ a t, (a, t) ∈ course act as s ∧ (act a t).1 = .error e := by
  induction as generalizing s with
  | nil => cases h
  | cons a as ih =>
      rcases hrun : act a s with ⟨other | _, t⟩
      · rw [forEach_cons_error hrun] at h
        exact ⟨a, s, List.mem_cons_self, by rw [hrun, h]⟩
      · rw [forEach_cons_ok hrun] at h
        obtain ⟨b, u, hmem, hfailed⟩ := ih h
        rw [course_cons_ok hrun]
        exact ⟨b, u, List.mem_cons_of_mem _ hmem, hfailed⟩

/-- A run that succeeds has begun with everything. -/
theorem course_of_ok (h : (forEach as act s).1 = .ok ()) :
    (course act as s).map Prod.fst = as := by
  induction as generalizing s with
  | nil => rfl
  | cons a as ih =>
      rcases hrun : act a s with ⟨_ | _, t⟩
      · simp [forEach_cons_error hrun] at h
      · rw [forEach_cons_ok hrun] at h
        rw [course_cons_ok hrun, List.map_cons, ih h]

/-- Every moment of a run comes out of its start, and the end of the run out of every moment. -/
theorem course_keeps {R : σ → σ → Prop} [Std.Refl R] [Trans R R R]
    (h : ∀ a ∈ as, (act a).Keeps R) :
    ∀ m ∈ course act as s, R s m.2 ∧ R (act m.1 m.2).2 (forEach as act s).2 := by
  induction as generalizing s with
  | nil => simp [course]
  | cons a as ih =>
      obtain ⟨ha, has⟩ := List.forall_mem_cons.mp h
      have hfirst := ha s
      rcases hrun : act a s with ⟨_ | _, t⟩
      · rw [course_cons_error hrun, forEach_cons_error hrun]
        simp only [List.mem_singleton, forall_eq, hrun]
        exact ⟨Std.Refl.refl s, Std.Refl.refl t⟩
      · rw [hrun] at hfirst
        rw [course_cons_ok hrun, forEach_cons_ok hrun]
        intro m hm
        rcases List.mem_cons.mp hm with rfl | hm
        · rw [hrun]
          exact ⟨Std.Refl.refl s, keeps_forEach has t⟩
        · obtain ⟨hbefore, hafter⟩ := ih has m hm
          exact ⟨Trans.trans hfirst hbefore, hafter⟩

/-- What every step of a run comes to, the run as a whole comes to. -/
theorem forEach_of_course {R : σ → σ → Prop} [Std.Refl R] [Trans R R R]
    (h : ∀ m ∈ course act as s, R m.2 (act m.1 m.2).2) : R s (forEach as act s).2 := by
  induction as generalizing s with
  | nil => exact Std.Refl.refl s
  | cons a as ih =>
      rcases hrun : act a s with ⟨_ | _, t⟩
      · rw [course_cons_error hrun, List.forall_mem_singleton, hrun] at h
        rw [forEach_cons_error hrun]
        exact h
      · rw [course_cons_ok hrun, List.forall_mem_cons, hrun] at h
        rw [forEach_cons_ok hrun]
        exact Trans.trans h.1 (ih h.2)

theorem course_append (act : α → Act σ Unit) (as bs : List α) (s : σ) :
    course act (as ++ bs) s =
      course act as s ++
        match forEach as act s with
        | (.ok (), t) => course act bs t
        | (.error _, _) => [] := by
  induction as generalizing s with
  | nil => rfl
  | cons a as ih =>
      rw [List.cons_append]
      rcases hrun : act a s with ⟨e | _, t⟩
      · rw [course_cons_error hrun, course_cons_error hrun, forEach_cons_error hrun]
        rfl
      · rw [course_cons_ok hrun, course_cons_ok hrun, forEach_cons_ok hrun, ih]
        rfl

/-- Whatever was begun after the front of a list, all of the front was begun and has succeeded. -/
theorem course_gate {front back : List α} {m : α × σ} (h : m ∈ course act (front ++ back) s)
    (hm : m.1 ∉ front) :
    (∀ a ∈ front, ∃ t, (a, t) ∈ course act (front ++ back) s) ∧
      ∀ a t, (a, t) ∈ course act (front ++ back) s → a ∉ back → (act a t).1 = .ok () := by
  rw [course_append] at h ⊢
  have hfront : m ∉ course act front s := by
    intro hmem
    exact hm ((course_begins act front s).mem (List.mem_map_of_mem hmem))
  rcases hrun : forEach front act s with ⟨e | _, t⟩
  · simp [hrun, hfront] at h
  · have hok : (forEach front act s).1 = .ok () := by rw [hrun]
    constructor
    · intro a ha
      rw [← course_of_ok hok] at ha
      obtain ⟨⟨b, u⟩, hmem, rfl⟩ := List.mem_map.mp ha
      exact ⟨u, List.mem_append_left _ hmem⟩
    · intro a u hmem ha
      rcases List.mem_append.mp hmem with hmem | hmem
      · exact forEach_eq_ok_iff.mp hok _ hmem
      · exact absurd ((course_begins act back t).mem (List.mem_map_of_mem hmem)) ha

/-- An element that the list has once is begun once. -/
theorem course_unique {key : α → Option β} (hnodup : (as.filterMap key).Nodup) {m n : α × σ}
    (hm : m ∈ course act as s) (hn : n ∈ course act as s) {k : β} (hmk : key m.1 = some k)
    (hnk : key n.1 = some k) : m = n := by
  induction as generalizing s with
  | nil => cases hm
  | cons a as ih =>
      have hbehind : ∀ {t : σ} {p : α × σ}, p ∈ course act as t → key p.1 = some k →
          k ∈ as.filterMap key := by
        intro t p hp hpk
        have hmem := (course_begins act as t).mem (List.mem_map_of_mem hp)
        exact List.mem_filterMap.mpr ⟨p.1, hmem, hpk⟩
      rcases hrun : act a s with ⟨e | _, t⟩
      · rw [course_cons_error hrun, List.mem_singleton] at hm hn
        rw [hm, hn]
      · rw [course_cons_ok hrun] at hm hn
        rcases List.mem_cons.mp hm with rfl | hm <;> rcases List.mem_cons.mp hn with rfl | hn
        · rfl
        · rw [List.filterMap_cons_some hmk, List.nodup_cons] at hnodup
          exact absurd (hbehind hn hnk) hnodup.1
        · rw [List.filterMap_cons_some hnk, List.nodup_cons] at hnodup
          exact absurd (hbehind hm hmk) hnodup.1
        · refine ih ?_ hm hn
          exact hnodup.sublist ((List.sublist_cons_self a as).filterMap key)

/-! ## What comes of the elements

Of each element that was begun there may come a row of other things, in the state it was begun
in. -/

/-- Whatever fails is the last of a list, and its failure is the outcome. -/
def Stops (fails : β → Error → Prop) (l : List β) (r : Except Error Unit) : Prop :=
  ∀ before b after e, l = before ++ b :: after → fails b e → after = [] ∧ r = .error e

theorem stops_nil {fails : β → Error → Prop} {r : Except Error Unit} : Stops fails [] r := by
  intro before b after e hsplit
  simp at hsplit

theorem stops_singleton {fails : β → Error → Prop} {b : β} {r : Except Error Unit}
    (h : ∀ e, fails b e → r = .error e) : Stops fails [b] r := by
  intro before c after e hsplit hc
  cases before with
  | nil =>
      obtain ⟨rfl, rfl⟩ := List.cons.inj hsplit
      exact ⟨rfl, h e hc⟩
  | cons first before => simp at hsplit

theorem stops_map {fails : γ → Error → Prop} {f : β → γ} {l : List β} {r : Except Error Unit}
    (h : Stops (fun b e => fails (f b) e) l r) : Stops fails (l.map f) r := by
  intro before c after e hsplit hc
  obtain ⟨front, back, rfl, rfl, hback⟩ := List.map_eq_append_iff.mp hsplit
  obtain ⟨b, rest, rfl, rfl, rfl⟩ := List.map_eq_cons_iff.mp hback
  obtain ⟨rfl, hr⟩ := h front b rest e rfl hc
  exact ⟨rfl, hr⟩

/-- If the rows of what was begun stop at a failure, so does all of it. -/
theorem stops_flatMap {fails : β → Error → Prop} {f : α × σ → List β}
    (h : ∀ m ∈ course act as s, Stops fails (f m) (act m.1 m.2).1) :
    Stops fails ((course act as s).flatMap f) (forEach as act s).1 := by
  induction as generalizing s with
  | nil => exact stops_nil
  | cons a as ih =>
      rcases hrun : act a s with ⟨_ | _, t⟩
      · rw [course_cons_error hrun] at h ⊢
        rw [forEach_cons_error hrun]
        have hfirst := h _ List.mem_cons_self
        rw [hrun] at hfirst
        simpa using hfirst
      · rw [course_cons_ok hrun] at h ⊢
        obtain ⟨hfirst, hrest⟩ := List.forall_mem_cons.mp h
        rw [forEach_cons_ok hrun, List.flatMap_cons]
        rw [hrun] at hfirst
        intro before b after e hsplit hb
        rcases List.append_eq_append_iff.mp hsplit with
          ⟨more, rfl, hmore⟩ | ⟨more, hrow, hmore⟩
        · exact ih hrest more b after e hmore hb
        · cases more with
          | nil => exact ih hrest [] b after e hmore.symm hb
          | cons first more =>
              -- a failure in the first row would be the outcome of an act that succeeded
              obtain ⟨rfl, _⟩ := List.cons.inj hmore
              obtain ⟨_, hfailed⟩ := hfirst before b more e hrow hb
              cases hfailed

/-- What a run began stops at a failure, which is the outcome of the run. -/
theorem stops_course (act : α → Act σ Unit) (as : List α) (s : σ) :
    Stops (fun (m : α × σ) e => (act m.1 m.2).1 = .error e) (course act as s)
      (forEach as act s).1 := by
  have hrows : Stops (fun (m : α × σ) e => (act m.1 m.2).1 = .error e)
      ((course act as s).flatMap fun m => [m]) (forEach as act s).1 :=
    stops_flatMap fun m _ => stops_singleton fun e he => he
  simpa using hrows

/-- If of each element comes a beginning of what is due for it, and all of it if the element
succeeds, then the same can be said of the run. -/
theorem flatMap_course {f : α × σ → List β} {due : α → List β}
    (h : ∀ m ∈ course act as s, f m <+: due m.1 ∧ ((act m.1 m.2).1 = .ok () → f m = due m.1)) :
    (course act as s).flatMap f <+: as.flatMap due ∧
      ((forEach as act s).1 = .ok () → (course act as s).flatMap f = as.flatMap due) := by
  induction as generalizing s with
  | nil => exact ⟨List.prefix_rfl, fun _ => rfl⟩
  | cons a as ih =>
      rcases hrun : act a s with ⟨_ | _, t⟩
      · rw [course_cons_error hrun] at h ⊢
        obtain ⟨hfirst, _⟩ := h _ List.mem_cons_self
        refine ⟨?_, fun hok => ?_⟩
        · rw [List.flatMap_singleton, List.flatMap_cons]
          exact hfirst.trans (List.prefix_append _ _)
        · simp [forEach_cons_error hrun] at hok
      · rw [course_cons_ok hrun] at h ⊢
        obtain ⟨⟨_, hfirst⟩, hrest⟩ := List.forall_mem_cons.mp h
        obtain ⟨hbegins, hall⟩ := ih hrest
        rw [forEach_cons_ok hrun, List.flatMap_cons, List.flatMap_cons, hfirst (by rw [hrun])]
        exact ⟨(List.prefix_append_right_inj _).mpr hbegins, fun hok => by rw [hall hok]⟩

/-- A log that every element continues by its own row is continued by the rows of all that was
begun. -/
theorem log_course {I : σ → Prop} {log : σ → List γ} {row : α × σ → List γ}
    (hkeeps : ∀ a ∈ as, ∀ s, I s → I (act a s).2)
    (hlog : ∀ a ∈ as, ∀ s, I s → log (act a s).2 = log s ++ row (a, s)) (hs : I s) :
    log (forEach as act s).2 = log s ++ (course act as s).flatMap row := by
  induction as generalizing s with
  | nil => simp [forEach, course]
  | cons a as ih =>
      obtain ⟨hkeep, hkeeps⟩ := List.forall_mem_cons.mp hkeeps
      obtain ⟨hfirst, hlog⟩ := List.forall_mem_cons.mp hlog
      have hnext := hkeep s hs
      have hrow := hfirst s hs
      rcases hrun : act a s with ⟨_ | _, t⟩
      · rw [hrun] at hrow
        rw [forEach_cons_error hrun, course_cons_error hrun, hrow, List.flatMap_singleton]
      · rw [hrun] at hrow hnext
        rw [forEach_cons_ok hrun, course_cons_ok hrun, ih hkeeps hlog hnext, hrow,
          List.flatMap_cons, List.append_assoc]

end AppAssembly.Act

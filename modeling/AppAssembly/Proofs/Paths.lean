import AppAssembly.Delegate

/-!
# Where a path leads

A path leads to a value exactly if none of its segments is empty and each of them is found in what
the ones before it lead to (`Namespace.Reaches`). If its first segment can be looked up and the path
leads nowhere all the same, the error names the most segments that still lead somewhere
(`Namespace.Breaks`). Paths joined by a dot are followed one after the other
(`Namespace.resolve_exact`).
-/

namespace AppAssembly

/-! ## Taking a path apart -/

namespace Text

theorem splitAt_eq_splitOn (sep : Char) (cs : List Char) :
    (splitAt sep cs).1 :: (splitAt sep cs).2 = cs.splitOn sep := by
  induction cs with
  | nil => rfl
  | cons c cs ih =>
      rw [List.splitOn_cons_eq_if_modifyHead, ← ih, splitAt]
      by_cases hc : c = sep
      · simp [hc]
      · simp [hc]

theorem not_mem_splitAt {sep : Char} {cs piece : List Char}
    (h : piece ∈ (splitAt sep cs).1 :: (splitAt sep cs).2) : sep ∉ piece := by
  induction cs generalizing piece with
  | nil =>
      rw [List.mem_singleton.mp h]
      exact List.not_mem_nil
  | cons c cs ih =>
      rw [splitAt] at h
      by_cases hc : c = sep
      · simp only [hc, if_true, List.mem_cons] at h
        rcases h with rfl | h
        · exact List.not_mem_nil
        · exact ih (List.mem_cons.mpr h)
      · simp only [hc, if_false, List.mem_cons] at h
        rcases h with rfl | h
        · have hfirst := ih List.mem_cons_self
          simp [Ne.symm hc, hfirst]
        · exact ih (List.mem_cons_of_mem _ h)

end Text

namespace Path

theorem segments_ofText (text : String) :
    (ofText text).segments = (text.toList.splitOn '.').map String.ofList := by
  rw [← Text.splitAt_eq_splitOn]
  rfl

/-- Joined by dots, the segments are the text that was taken apart. -/
theorem intercalate_segments (text : String) : ".".intercalate (ofText text).segments = text := by
  apply String.toList_injective
  rw [String.toList_intercalate, segments_ofText, List.map_map]
  have hsame : (String.toList ∘ String.ofList) = id := by
    funext cs
    exact String.toList_ofList
  rw [hsame, List.map_id]
  exact List.intercalate_splitOn '.'

theorem not_dot_mem {text segment : String} (h : segment ∈ (ofText text).segments) :
    '.' ∉ segment.toList := by
  rw [segments_ofText, ← Text.splitAt_eq_splitOn] at h
  obtain ⟨piece, hpiece, rfl⟩ := List.mem_map.mp h
  rw [String.toList_ofList]
  exact Text.not_mem_splitAt hpiece

theorem segments_intercalate {segments : List String} (hne : segments ≠ [])
    (h : ∀ segment ∈ segments, '.' ∉ segment.toList) :
    (ofText (".".intercalate segments)).segments = segments := by
  rw [segments_ofText, String.toList_intercalate]
  have hsplit : List.splitOn '.' (['.'].intercalate (segments.map String.toList)) =
      segments.map String.toList := by
    refine List.splitOn_intercalate '.' ?_ (by simpa using hne)
    simpa using h
  rw [show ".".toList = ['.'] from rfl, hsplit, List.map_map]
  simp

theorem segments_ne_nil (p : Path) : p.segments ≠ [] :=
  List.cons_ne_nil _ _

/-- Where paths are joined by a dot, their segments follow each other. -/
theorem segments_append (p q : String) :
    (ofText (p ++ "." ++ q)).segments = (ofText p).segments ++ (ofText q).segments := by
  have hjoin : p ++ "." ++ q = ".".intercalate ((ofText p).segments ++ (ofText q).segments) := by
    rw [String.intercalate_append_of_ne_nil (segments_ne_nil _) (segments_ne_nil _),
      intercalate_segments, intercalate_segments]
  rw [hjoin, segments_intercalate]
  · simp [segments_ne_nil]
  · intro segment h
    rcases List.mem_append.mp h with h | h
    · exact not_dot_mem h
    · exact not_dot_mem h

end Path

/-! ## Following the segments -/

/-- None of the segments is empty, and one after the other they lead from a value to another. -/
inductive Value.LeadsTo : Value → List String → Value → Prop where
  | done (v : Value) : LeadsTo v [] v
  | step {v next last : Value} {segment : String} {rest : List String} (filled : segment ≠ "")
      (found : v.lookup segment = some next) (further : LeadsTo next rest last) :
      LeadsTo v (segment :: rest) last

namespace Value

variable {u v w : Value} {segments more : List String} {segment : String}

theorem leadsTo_append_iff :
    v.LeadsTo (segments ++ more) w ↔ ∃ u, v.LeadsTo segments u ∧ u.LeadsTo more w := by
  constructor
  · intro h
    induction segments generalizing v with
    | nil => exact ⟨v, .done v, h⟩
    | cons segment rest ih =>
        cases h with
        | step hne hfound hfurther =>
            obtain ⟨u, hrest, hmore⟩ := ih hfurther
            exact ⟨u, .step hne hfound hrest, hmore⟩
  · rintro ⟨u, hsegments, hmore⟩
    induction hsegments with
    | done => exact hmore
    | step hne hfound _ ih => exact .step hne hfound (ih hmore)

theorem LeadsTo.unique (h : v.LeadsTo segments u) (h' : v.LeadsTo segments w) : u = w := by
  induction h with
  | done =>
      cases h'
      rfl
  | step hne hfound hfurther ih =>
      cases h' with
      | step hne' hfound' hfurther' =>
          cases hfound.symm.trans hfound'
          exact ih hfurther'

/-- What has nothing under a segment leads nowhere from there. -/
theorem not_leadsTo (h : segment = "" ∨ v.lookup segment = none) (more : List String) (w : Value) :
    ¬ v.LeadsTo (segment :: more) w := by
  intro hleads
  cases hleads with
  | step hne hfound _ =>
      rcases h with h | h
      · exact hne h
      · cases h.symm.trans hfound

end Value

namespace Path

variable {v w : Value} {segments found got : List String}

theorem walk_eq_ok_iff : walk found v segments = .ok w ↔ v.LeadsTo segments w := by
  induction segments generalizing found v with
  | nil =>
      constructor
      · intro h
        cases h
        exact .done _
      · intro h
        cases h
        rfl
  | cons segment rest ih =>
      unfold walk
      constructor
      · intro h
        split at h
        · rename_i next hnext
          split at hnext
          · cases hnext
          · rename_i hne
            exact .step hne hnext (ih.mp h)
        · cases h
      · intro h
        cases h with
        | step hne hfound hfurther =>
            rw [if_neg hne, hfound]
            exact ih.mpr hfurther

/-- A walk that ends early has come to a value that has nothing under the next segment. -/
theorem walk_eq_error (h : walk found v segments = .error got) :
    ∃ more segment rest w, segments = more ++ segment :: rest ∧ got = found ++ more ∧
      v.LeadsTo more w ∧ (segment = "" ∨ w.lookup segment = none) := by
  induction segments generalizing found v with
  | nil => cases h
  | cons segment rest ih =>
      unfold walk at h
      by_cases hne : segment = ""
      · rw [if_pos hne] at h
        cases h
        exact ⟨[], segment, rest, v, rfl, (List.append_nil _).symm, .done v, .inl hne⟩
      · rw [if_neg hne] at h
        cases hnext : v.lookup segment with
        | none =>
            rw [hnext] at h
            cases h
            exact ⟨[], segment, rest, v, rfl, (List.append_nil _).symm, .done v, .inr hnext⟩
        | some next =>
            rw [hnext] at h
            obtain ⟨more, last, beyond, w, rfl, rfl, hmore, hlast⟩ := ih h
            exact ⟨segment :: more, last, beyond, w, rfl, by simp, .step hne hnext hmore, hlast⟩

theorem follow_eq_ok_iff {p : Path} {root : String} {first : Option Value} :
    p.follow root first = .ok v ↔ ∃ u, first = some u ∧ u.LeadsTo p.tail v := by
  unfold follow
  cases first with
  | none => simp
  | some u =>
      simp only [Option.some.injEq, exists_eq_left']
      have hwalk : walk [p.head] u p.tail = .ok v ↔ u.LeadsTo p.tail v := walk_eq_ok_iff
      rw [← hwalk]
      cases walk [p.head] u p.tail with
      | ok w => simp
      | error got => simp

end Path

namespace Namespace

variable {σ : Type} {root : Namespace σ} {s : σ} {text : String} {v : Value}
  {segments found more : List String}

/-- The first segment is found in the namespace, and the others lead on from there. -/
def Reaches (root : Namespace σ) (s : σ) : List String → Value → Prop
  | [], _ => False
  | head :: tail, v =>
      head ≠ "" ∧ ∃ first, (root.lookup head s).1 = .ok (some first) ∧ first.LeadsTo tail v

theorem reaches_append_iff (hne : segments ≠ []) :
    root.Reaches s (segments ++ more) v ↔ ∃ u, root.Reaches s segments u ∧ u.LeadsTo more v := by
  cases segments with
  | nil => exact absurd rfl hne
  | cons head tail =>
      constructor
      · rintro ⟨hhead, first, hfirst, hleads⟩
        obtain ⟨u, htail, hmore⟩ := Value.leadsTo_append_iff.mp hleads
        exact ⟨u, ⟨hhead, first, hfirst, htail⟩, hmore⟩
      · rintro ⟨u, ⟨hhead, first, hfirst, htail⟩, hmore⟩
        exact ⟨hhead, first, hfirst, Value.leadsTo_append_iff.mpr ⟨u, htail, hmore⟩⟩

theorem Reaches.unique {w : Value} (h : root.Reaches s segments v)
    (h' : root.Reaches s segments w) : v = w := by
  cases segments with
  | nil => exact h.elim
  | cons head tail =>
      obtain ⟨_, first, hfirst, hleads⟩ := h
      obtain ⟨_, first', hfirst', hleads'⟩ := h'
      cases hfirst.symm.trans hfirst'
      exact hleads.unique hleads'

theorem lookupHead_eq_some_iff {p : Path} {first : Value} :
    (root.lookupHead p s).1 = .ok (some first) ↔
      p.head ≠ "" ∧ (root.lookup p.head s).1 = .ok (some first) := by
  unfold lookupHead
  by_cases hhead : p.head = ""
  · simp [hhead]
  · simp [hhead]

/-- A path leads to a value exactly if its segments do. -/
theorem resolve_eq_ok_iff :
    (root.resolve text s).1 = .ok v ↔ root.Reaches s (Path.ofText text).segments v := by
  rw [resolve_apply]
  generalize Path.ofText text = p
  constructor
  · intro h
    cases hfirst : (root.lookupHead p s).1 with
    | error e =>
        rw [hfirst] at h
        cases h
    | ok first =>
        rw [hfirst] at h
        obtain ⟨u, rfl, hleads⟩ := Path.follow_eq_ok_iff.mp h
        obtain ⟨hhead, hlookup⟩ := lookupHead_eq_some_iff.mp hfirst
        exact ⟨hhead, u, hlookup, hleads⟩
  · rintro ⟨hhead, u, hlookup, hleads⟩
    dsimp only
    rw [lookupHead_eq_some_iff.mpr ⟨hhead, hlookup⟩]
    exact Path.follow_eq_ok_iff.mpr ⟨u, rfl, hleads⟩

/-- The beginnings of a path are paths themselves. -/
theorem resolve_beginning_iff (hne : found ≠ []) (h : found <+: (Path.ofText text).segments) :
    (root.resolve (".".intercalate found) s).1 = .ok v ↔ root.Reaches s found v := by
  rw [resolve_eq_ok_iff, Path.segments_intercalate hne]
  intro segment hsegment
  exact Path.not_dot_mem (h.subset hsegment)

/-! ## Where a path breaks off -/

/-- There is nothing under the segment in what those before it lead to. -/
inductive Misses (root : Namespace σ) (s : σ) : List String → String → Prop where
  | first {segment : String} (h : segment = "" ∨ (root.lookup segment s).1 = .ok none) :
      Misses root s [] segment
  | further {found : List String} {v : Value} {segment : String} (reached : root.Reaches s found v)
      (h : segment = "" ∨ v.lookup segment = none) : Misses root s found segment

theorem Misses.not_reaches {segment : String} (h : root.Misses s found segment)
    (more : List String) (v : Value) : ¬ root.Reaches s (found ++ segment :: more) v := by
  cases h with
  | first h =>
      rintro ⟨hne, first, hfirst, _⟩
      rcases h with h | h
      · exact hne h
      · cases h.symm.trans hfirst
  | further hfound h =>
      have hne : found ≠ [] := by
        rintro rfl
        exact hfound
      intro hreaches
      obtain ⟨u, hu, hleads⟩ := (reaches_append_iff hne).mp hreaches
      cases hu.unique hfound
      exact Value.not_leadsTo h more v hleads

/-- How far a path can be followed that leads nowhere. -/
structure Breaks (root : Namespace σ) (s : σ) (text : String) (found : List String) : Prop where
  /-- There is a further segment, which is empty or missing in the namespace, if it is the first
  one, and else in the value that the path made of those before it leads to. -/
  next : ∃ segment rest, (Path.ofText text).segments = found ++ segment :: rest ∧
    (found = [] ∧ (segment = "" ∨ (root.lookup segment s).1 = .ok none) ∨
      ∃ v, (root.resolve (".".intercalate found) s).1 = .ok v ∧
        (segment = "" ∨ v.lookup segment = none))
  /-- The beginnings of the path that lead somewhere are those up to there. -/
  longest : ∀ first, first ≠ [] → first <+: (Path.ofText text).segments →
    ((∃ v, (root.resolve (".".intercalate first) s).1 = .ok v) ↔ first <+: found)

theorem Breaks.misses (h : root.Breaks s text found) :
    ∃ segment rest, (Path.ofText text).segments = found ++ segment :: rest ∧
      root.Misses s found segment := by
  obtain ⟨segment, rest, hsegments, hnext⟩ := h.next
  refine ⟨segment, rest, hsegments, ?_⟩
  rcases hnext with ⟨rfl, hfirst⟩ | ⟨v, hv, hmissing⟩
  · exact .first hfirst
  · refine .further (v := v) ?_ hmissing
    by_cases hne : found = []
    · -- without segments there is only the empty path, which leads nowhere
      subst hne
      exact absurd rfl (resolve_eq_ok_iff.mp hv).1
    · exact (resolve_beginning_iff hne ⟨_, hsegments.symm⟩).mp hv

theorem Misses.breaks {segment : String} {rest : List String} (h : root.Misses s found segment)
    (hsegments : (Path.ofText text).segments = found ++ segment :: rest) :
    root.Breaks s text found := by
  have hfound : found <+: (Path.ofText text).segments := ⟨_, hsegments.symm⟩
  refine ⟨⟨segment, rest, hsegments, ?_⟩, fun first hne hfirst => ?_⟩
  · cases h with
    | first h => exact .inl ⟨rfl, h⟩
    | further hreached h =>
        have hne : found ≠ [] := by
          rintro rfl
          exact hreached
        exact .inr ⟨_, (resolve_beginning_iff hne hfound).mpr hreached, h⟩
  simp only [resolve_beginning_iff hne hfirst]
  constructor
  · rintro ⟨v, hv⟩
    rcases List.prefix_or_prefix_of_prefix hfirst hfound with hshort | ⟨more, rfl⟩
    · exact hshort
    · cases more with
      | nil => simp
      | cons other more =>
          -- the beginning goes beyond the missing segment
          rw [hsegments, List.prefix_append_right_inj, List.cons_prefix_cons] at hfirst
          cases hfirst.1
          exact absurd hv (h.not_reaches more v)
  · rintro ⟨more, hmore⟩
    cases h with
    | first _ => exact absurd (List.append_eq_nil_iff.mp hmore).1 hne
    | further hfound _ =>
        rw [← hmore] at hfound
        obtain ⟨u, hu, _⟩ := (reaches_append_iff hne).mp hfound
        exact ⟨u, hu⟩

/-- Where a path breaks off, it does not lead to a value. -/
theorem Breaks.not_reaches (h : root.Breaks s text found) (v : Value) :
    ¬ root.Reaches s (Path.ofText text).segments v := by
  obtain ⟨segment, rest, hsegments, hmisses⟩ := h.misses
  rw [hsegments]
  exact hmisses.not_reaches rest v

theorem Breaks.unique {other : List String} (h : root.Breaks s text found)
    (h' : root.Breaks s text other) : found = other := by
  have hshorter : ∀ {near far : List String}, root.Breaks s text near → root.Breaks s text far →
      near <+: far := by
    intro near far hnear hfar
    rcases List.eq_nil_or_concat near with rfl | ⟨_, _, rfl⟩
    · exact List.nil_prefix
    · obtain ⟨segment, rest, hsegments, _⟩ := hnear.next
      have hbeginning : _ <+: (Path.ofText text).segments := ⟨_, hsegments.symm⟩
      refine (hfar.longest _ (by simp) hbeginning).mp ?_
      exact (hnear.longest _ (by simp) hbeginning).mpr (List.prefix_refl _)
  exact (hshorter h h').eq_of_length_le (hshorter h' h).length_le

/-- A path breaks off only if its first segment can be looked up. -/
theorem Breaks.not_failed (h : root.Breaks s text found) (hne : (Path.ofText text).head ≠ "")
    (e : Error) : (root.lookup (Path.ofText text).head s).1 ≠ .error e := by
  intro hfailed
  obtain ⟨segment, rest, hsegments, hmisses⟩ := h.misses
  cases hmisses with
  | first h =>
      obtain ⟨rfl, rfl⟩ := List.cons.inj hsegments
      rcases h with h | h
      · exact hne h
      · cases h.symm.trans hfailed
  | further hfound _ =>
      cases found with
      | nil => exact hfound
      | cons first further =>
          obtain ⟨rfl, _⟩ := List.cons.inj hsegments
          obtain ⟨_, v, hv, _⟩ := hfound
          cases hv.symm.trans hfailed

/-- What resolving a path comes to, by what its first segment leads to. -/
inductive Resolves (root : Namespace σ) (s : σ) (text : String) : Except Error Value → Prop where
  | found {v : Value} (h : root.Reaches s (Path.ofText text).segments v) :
      Resolves root s text (.ok v)
  | failed {e : Error} (hne : (Path.ofText text).head ≠ "")
      (h : (root.lookup (Path.ofText text).head s).1 = .error e) : Resolves root s text (.error e)
  | broken {found : List String} (h : root.Breaks s text found) :
      Resolves root s text (.error (.pathNotFound ⟨text, root.describe, found⟩))

theorem resolves (root : Namespace σ) (s : σ) (text : String) :
    root.Resolves s text (root.resolve text s).1 := by
  cases hresult : (root.resolve text s).1 with
  | ok v => exact .found (resolve_eq_ok_iff.mp hresult)
  | error e =>
      have hsegments : (Path.ofText text).segments =
          (Path.ofText text).head :: (Path.ofText text).tail := rfl
      rw [resolve_apply] at hresult
      unfold lookupHead at hresult
      by_cases hhead : (Path.ofText text).head = ""
      · rw [if_pos hhead] at hresult
        cases hresult
        exact .broken ((Misses.first (.inl hhead)).breaks hsegments)
      · rw [if_neg hhead] at hresult
        cases hlookup : (root.lookup (Path.ofText text).head s).1 with
        | error e' =>
            rw [hlookup] at hresult
            cases hresult
            exact .failed hhead hlookup
        | ok first =>
            rw [hlookup] at hresult
            cases first with
            | none =>
                cases hresult
                exact .broken ((Misses.first (.inr hlookup)).breaks hsegments)
            | some first =>
                change Path.follow _ _ (some first) = _ at hresult
                unfold Path.follow at hresult
                dsimp only at hresult
                split at hresult
                · cases hresult
                · rename_i got hwalk
                  cases hresult
                  obtain ⟨more, segment, rest, w, htail, rfl, hmore, hmissing⟩ :=
                    Path.walk_eq_error hwalk
                  have hreached : root.Reaches s ((Path.ofText text).head :: more) w :=
                    ⟨hhead, first, hlookup, hmore⟩
                  rw [htail] at hsegments
                  exact .broken ((Misses.further hreached hmissing).breaks hsegments)

theorem Resolves.resolve_eq {r : Except Error Value} (h : root.Resolves s text r) :
    (root.resolve text s).1 = r := by
  cases h with
  | found h => exact resolve_eq_ok_iff.mpr h
  | failed hne h =>
      rw [resolve_apply, lookupHead, if_neg hne, h]
      rfl
  | broken h =>
      have hresolves := root.resolves s text
      generalize (root.resolve text s).1 = r at hresolves ⊢
      cases hresolves with
      | found h' => exact absurd h' (h.not_reaches _)
      | failed hne h' => exact absurd h' (h.not_failed hne _)
      | broken h' => rw [h'.unique h]

/-! ## Paths one after the other -/

/-- Only an object has something under a name, and it is a namespace of its own. -/
theorem leadsTo_iff_reaches {τ : Type} (t : τ) {u : Value} {segment : String} {rest : List String} :
    u.LeadsTo (segment :: rest) v ↔
      ∃ o : Obj, u = .object o ∧ o.asNamespace.Reaches t (segment :: rest) v := by
  constructor
  · intro h
    cases h with
    | step hne hfound hfurther =>
        cases u with
        | object o => exact ⟨o, rfl, hne, _, congrArg Except.ok hfound, hfurther⟩
        | _ => cases hfound
  · rintro ⟨o, rfl, hne, first, hfirst, hfurther⟩
    exact .step hne (Except.ok.inj hfirst) hfurther

/-- Of any path, in any namespace: it is its segments, joined by dots; it leads to a value exactly
if none of them is empty and each is found in what those before it lead to; if the first one can't
be looked up, that error is passed on; and otherwise the error names the most segments that lead
somewhere. A path that goes on leads to a value exactly if the first part leads to an object, and
the rest to the value from there. -/
theorem resolve_exact (root : Namespace σ) (s : σ) (text : String) :
    ".".intercalate (Path.ofText text).segments = text ∧
    (∀ segment ∈ (Path.ofText text).segments, '.' ∉ segment.toList) ∧
    (∀ r, (root.resolve text s).1 = r ↔ root.Resolves s text r) ∧
    ∀ more v, (root.resolve (text ++ "." ++ more) s).1 = .ok v ↔
      ∃ o : Obj, (root.resolve text s).1 = .ok (.object o) ∧
        (o.asNamespace.resolve more ()).1 = .ok v := by
  refine ⟨Path.intercalate_segments text, fun segment => Path.not_dot_mem, fun r => ?_,
    fun more v => ?_⟩
  · constructor
    · rintro rfl
      exact root.resolves s text
    · exact Resolves.resolve_eq
  · rw [resolve_eq_ok_iff, Path.segments_append, reaches_append_iff (Path.segments_ne_nil _)]
    simp only [resolve_eq_ok_iff]
    constructor
    · rintro ⟨u, hu, hmore⟩
      obtain ⟨o, rfl, ho⟩ := (leadsTo_iff_reaches ()).mp hmore
      exact ⟨o, hu, ho⟩
    · rintro ⟨o, hu, ho⟩
      exact ⟨_, hu, (leadsTo_iff_reaches ()).mpr ⟨o, rfl, ho⟩⟩

end Namespace

/-! ## An owner with a name that can't be looked up -/

namespace Locked

def tools : Obj :=
  ⟨.given 0, "Tools", [("depth", .int 2)], []⟩

def delegate : Delegate :=
  ⟨"alias", "tools.depth", ⟨"Owner.Methods", none⟩⟩

def owner : Owner :=
  ⟨[("tools", .object tools), ("safe", .object tools)], [("safe", [.fail (.other "locked")])]⟩

def root : Namespace (Cell × Owner) :=
  Owner.asNamespace delegate

/-- The same segment is missing or not reached at all. -/
theorem resolve_exact_root :
    root.Resolves (.unresolved, owner) "tools.missing.deeper"
      (.error (.pathNotFound ⟨"tools.missing.deeper", "<owner>", ["tools"]⟩)) ∧
    root.Resolves (.unresolved, owner) "safe.missing.deeper" (.error (.other "locked")) ∧
    (∃ o : Obj, (root.resolve "tools" (.unresolved, owner)).1 = .ok (.object o) ∧
      (o.asNamespace.resolve "depth" ()).1 = .ok (.int 2)) ∧
    '.' ∉ "deeper".toList := by
  obtain ⟨_, hdotless, hmissing, _⟩ :=
    Namespace.resolve_exact root (.unresolved, owner) "tools.missing.deeper"
  obtain ⟨_, _, hlocked, _⟩ :=
    Namespace.resolve_exact root (.unresolved, owner) "safe.missing.deeper"
  obtain ⟨_, _, _, hmore⟩ := Namespace.resolve_exact root (.unresolved, owner) "tools"
  refine ⟨(hmissing _).mp rfl, (hlocked _).mp rfl, (hmore "depth" _).mp rfl, ?_⟩
  exact hdotless "deeper" (by decide)

end Locked

end AppAssembly

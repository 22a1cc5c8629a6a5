import AppAssembly.Factory.Workshop
import AppAssembly.Entries.FirstBy
import Mathlib.Data.List.Induction

/-!
# What binding binds

A parameter may be declared several times. Binding takes the values in the order of the
declarations, so a name keeps the place of its first declaration, and where nothing is supplied the
default of its last declaration counts. This fixes the bound arguments (`Binding.unique`); that they
fit again, and that the order of the keywords is lost, follows from it.
-/

namespace AppAssembly

namespace Factory

variable {f : Factory} {kwargs bound : Kwargs}

/-! ## What fits and what is refused -/

/-- The names of the parameters, in order of declaration. -/
def declared (f : Factory) : List String :=
  f.params.map Param.name

/-- The default of the last declaration of a name. -/
def lastDefault? (params : List Param) (name : String) : Option Value :=
  (params.reverse.find? fun p => p.name == name).bind Param.default?

/-- Every keyword is the name of a parameter, and every parameter declared without a default is
supplied. -/
structure Fits (f : Factory) (kwargs : Kwargs) : Prop where
  known : ∀ keyword ∈ kwargs.keys, keyword ∈ f.declared
  supplied : ∀ p ∈ f.params, p.default? = none → p.name ∈ kwargs.keys

/-- What keyword arguments that fit are bound to: every declared name once, in the order of the
first declarations, with the supplied value or else the default of its last declaration. -/
structure Binding (f : Factory) (kwargs bound : Kwargs) : Prop where
  fits : f.Fits kwargs
  names : bound.keys = firstBy id f.declared
  value : ∀ name ∈ f.declared,
    bound.get? name = (kwargs.get? name).or (lastDefault? f.params name)

/-- What is reported: the first unexpected keyword, in the order of the keywords; if there is none,
the first parameter that is missing, in the order of the declarations. -/
inductive Rejects (f : Factory) (kwargs : Kwargs) : ArgumentError → Prop where
  | unexpected {before after : List String} {keyword : String}
      (split : kwargs.keys = before ++ keyword :: after)
      (first : ∀ earlier ∈ before, earlier ∈ f.declared) (undeclared : keyword ∉ f.declared) :
      Rejects f kwargs (.unexpected f.name keyword)
  | missing {before after : List Param} {p : Param}
      (known : ∀ keyword ∈ kwargs.keys, keyword ∈ f.declared)
      (split : f.params = before ++ p :: after)
      (first : ∀ q ∈ before, q.default? = none → q.name ∈ kwargs.keys)
      (required : p.default? = none) (absent : p.name ∉ kwargs.keys) :
      Rejects f kwargs (.missing f.name p.name)

/-- Keyword arguments are bound in one way only. -/
theorem Binding.unique {other : Kwargs} (h : f.Binding kwargs bound)
    (h' : f.Binding kwargs other) : bound = other := by
  refine Entries.ext_get? (h.names.trans h'.names.symm) ?_ fun name hname => ?_
  · rw [h.names]
    simpa using nodup_map_firstBy id f.declared
  · have hdeclared : name ∈ f.declared := mem_firstBy_id.mp (h.names ▸ hname)
    rw [h.value name hdeclared, h'.value name hdeclared]

/-! ## Walking along the parameters -/

theorem argument?_isSome_iff (p : Param) :
    (argument? kwargs p).isSome ↔ (p.default? = none → p.name ∈ kwargs.keys) := by
  rw [argument?, Option.isSome_or, Bool.or_eq_true, Entries.get?_isSome_iff]
  cases p.default? <;> simp

/-- The parameters with the values they get, in order of declaration. -/
def arguments (kwargs : Kwargs) (params : List Param) : Kwargs :=
  params.filterMap fun p => (argument? kwargs p).map fun v => (p.name, v)

theorem keys_arguments {params : List Param}
    (h : ∀ p ∈ params, (argument? kwargs p).isSome) :
    (arguments kwargs params).keys = params.map Param.name := by
  induction params with
  | nil => rfl
  | cons p rest ih =>
      obtain ⟨v, hv⟩ := Option.isSome_iff_exists.mp (h p List.mem_cons_self)
      have hrest := ih fun q hq => h q (List.mem_cons_of_mem p hq)
      simpa [arguments, Entries.keys, hv] using hrest

/-- Binding lays the values of the parameters over each other, the first one lowest. -/
theorem bindParams_eq_ok {params : List Param}
    (h : ∀ p ∈ params, (argument? kwargs p).isSome) (bound : Kwargs) :
    bindParams kwargs bound params = .ok (Entries.overlay bound (arguments kwargs params)) := by
  induction params generalizing bound with
  | nil => rfl
  | cons p rest ih =>
      obtain ⟨v, hv⟩ := Option.isSome_iff_exists.mp (h p List.mem_cons_self)
      have hrest := ih (fun q hq => h q (List.mem_cons_of_mem p hq)) (bound.insert p.name v)
      simpa [bindParams, arguments, Entries.overlay, hv] using hrest

/-- Binding stops at the first parameter without a value. -/
theorem bindParams_append_eq_error {before after : List Param} {p : Param}
    (hbefore : ∀ q ∈ before, (argument? kwargs q).isSome) (hp : argument? kwargs p = none)
    (bound : Kwargs) : bindParams kwargs bound (before ++ p :: after) = .error p.name := by
  induction before generalizing bound with
  | nil => simp [bindParams, hp]
  | cons q before ih =>
      obtain ⟨v, hv⟩ := Option.isSome_iff_exists.mp (hbefore q List.mem_cons_self)
      simp only [List.cons_append, bindParams, hv]
      exact ih (fun r hr => hbefore r (List.mem_cons_of_mem q hr)) (bound.insert q.name v)

/-- The last value of a name counts: the supplied one, which all its declarations share, or the
default of the last declaration. -/
theorem get?_arguments {params : List Param} (h : ∀ p ∈ params, (argument? kwargs p).isSome)
    {name : String} (hname : name ∈ params.map Param.name) :
    (Entries.ofPairs (arguments kwargs params)).get? name =
      (kwargs.get? name).or (lastDefault? params name) := by
  induction params using List.reverseRecOn with
  | nil => cases hname
  | append_singleton params p ih =>
      obtain ⟨v, hv⟩ := Option.isSome_iff_exists.mp (h p (by simp))
      have hlast : Entries.ofPairs (arguments kwargs (params ++ [p])) =
          (Entries.ofPairs (arguments kwargs params)).insert p.name v := by
        simp [arguments, Entries.ofPairs, Entries.overlay, hv]
      rw [hlast, Entries.get?_insert]
      by_cases hp : p.name = name
      · subst hp
        simp [lastDefault?, ← hv, argument?]
      · have hname : name ∈ params.map Param.name := by
          simpa [Ne.symm hp] using hname
        rw [if_neg hp, ih (fun q hq => h q (List.mem_append_left _ hq)) hname]
        simp [lastDefault?, hp]

/-! ## Binding -/

theorem accepts_iff (f : Factory) (keyword : String) :
    f.accepts keyword = true ↔ keyword ∈ f.declared := by
  simp [accepts, declared]

theorem bind_of_known (h : ∀ keyword ∈ kwargs.keys, keyword ∈ f.declared) :
    f.bind kwargs = (bindParams kwargs [] f.params).mapError (.missing f.name) := by
  have hnone : (kwargs.keys.find? fun keyword => !f.accepts keyword) = none := by
    rw [List.find?_eq_none]
    intro keyword hkeyword
    simpa [accepts_iff] using h keyword hkeyword
  simp only [bind, hnone]
  cases bindParams kwargs [] f.params <;> rfl

/-- Arguments that fit are bound. -/
theorem Fits.bind (h : f.Fits kwargs) :
    ∃ bound, f.bind kwargs = .ok bound ∧ f.Binding kwargs bound := by
  have hsome : ∀ p ∈ f.params, (argument? kwargs p).isSome := fun p hp =>
    (argument?_isSome_iff p).mpr (h.supplied p hp)
  refine ⟨Entries.ofPairs (arguments kwargs f.params), ?_, h, ?_, ?_⟩
  · rw [bind_of_known h.known, bindParams_eq_ok hsome]
    rfl
  · have hempty : (Entries.keys ([] : Kwargs)).Nodup := List.nodup_nil
    rw [Entries.ofPairs, Entries.keys_overlay hempty, keys_arguments hsome]
    rfl
  · exact fun name hname => get?_arguments hsome hname

/-- What is refused gets the error that says why. -/
theorem Rejects.bind {e : ArgumentError} (h : f.Rejects kwargs e) : f.bind kwargs = .error e := by
  cases h with
  | @unexpected before after keyword hsplit hfirst hundeclared =>
      have hfound : (kwargs.keys.find? fun keyword => !f.accepts keyword) = some keyword := by
        rw [hsplit, List.find?_append, List.find?_eq_none.mpr]
        · have hkeyword : f.accepts keyword = false := by
            rw [← Bool.not_eq_true, accepts_iff]
            exact hundeclared
          simp [hkeyword]
        · intro earlier hearlier
          simpa [accepts_iff] using hfirst earlier hearlier
      rw [Factory.bind, hfound]
  | @missing before after p hknown hsplit hfirst hrequired habsent =>
      have hp : argument? kwargs p = none := by
        rw [← Option.not_isSome_iff_eq_none, argument?_isSome_iff]
        exact fun hsupplied => habsent (hsupplied hrequired)
      have hbefore : ∀ q ∈ before, (argument? kwargs q).isSome := fun q hq =>
        (argument?_isSome_iff q).mpr (hfirst q hq)
      rw [bind_of_known hknown, hsplit, bindParams_append_eq_error hbefore hp]
      rfl

/-- Keyword arguments fit or there is a first reason why they don't. -/
theorem fits_or_rejects (f : Factory) (kwargs : Kwargs) :
    f.Fits kwargs ∨ ∃ e, f.Rejects kwargs e := by
  cases hkeyword : kwargs.keys.find? fun keyword => !f.accepts keyword with
  | some keyword =>
      obtain ⟨hnot, before, after, hsplit, hfirst⟩ := List.find?_eq_some_iff_append.mp hkeyword
      exact .inr ⟨_, .unexpected hsplit (by simpa [accepts_iff] using hfirst)
        (by simpa [← accepts_iff] using hnot)⟩
  | none =>
      have hknown : ∀ keyword ∈ kwargs.keys, keyword ∈ f.declared := by
        simpa [accepts_iff] using hkeyword
      cases hparam : f.params.find? fun p => !(argument? kwargs p).isSome with
      | some p =>
          obtain ⟨hp, before, after, hsplit, hfirst⟩ := List.find?_eq_some_iff_append.mp hparam
          have hmissing : ¬ (p.default? = none → p.name ∈ kwargs.keys) := by
            rw [← argument?_isSome_iff]
            simpa using hp
          rw [Classical.not_imp] at hmissing
          have hbefore : ∀ q ∈ before, q.default? = none → q.name ∈ kwargs.keys := fun q hq =>
            (argument?_isSome_iff q).mp (by simpa using hfirst q hq)
          exact .inr ⟨_, .missing hknown hsplit hbefore hmissing.1 hmissing.2⟩
      | none =>
          have hsome := List.find?_eq_none.mp hparam
          exact .inl ⟨hknown, fun p hp => (argument?_isSome_iff p).mp (by
            simpa [Option.isSome_iff_ne_none] using hsome p hp)⟩

theorem bind_eq_ok_iff : f.bind kwargs = .ok bound ↔ f.Binding kwargs bound := by
  constructor
  · intro hok
    rcases fits_or_rejects f kwargs with hfits | ⟨e, he⟩
    · obtain ⟨other, hother, hbinding⟩ := hfits.bind
      cases hok.symm.trans hother
      exact hbinding
    · cases hok.symm.trans he.bind
  · intro h
    obtain ⟨other, hother, hbinding⟩ := h.fits.bind
    rw [hother, h.unique hbinding]

theorem bind_eq_error_iff {e : ArgumentError} : f.bind kwargs = .error e ↔ f.Rejects kwargs e := by
  refine ⟨fun herror => ?_, Rejects.bind⟩
  rcases fits_or_rejects f kwargs with hfits | ⟨other, hother⟩
  · obtain ⟨bound, hbound, -⟩ := hfits.bind
    cases herror.symm.trans hbound
  · cases herror.symm.trans hother.bind
    exact hother

/-- The order of the keywords is lost. -/
theorem Binding.perm {others : Kwargs} (h : f.Binding kwargs bound)
    (hnodup : (Entries.keys kwargs).Nodup) (hperm : kwargs.Perm others) :
    f.Binding others bound := by
  have hkeys : ∀ {name : String}, name ∈ others.keys ↔ name ∈ kwargs.keys :=
    (hperm.map Prod.fst).mem_iff.symm
  refine ⟨⟨fun keyword hkeyword => h.fits.known keyword (hkeys.mp hkeyword), fun p hp hdefault =>
    hkeys.mpr (h.fits.supplied p hp hdefault)⟩, h.names, fun name hname => ?_⟩
  rw [h.value name hname, Entries.get?_perm hperm hnodup]

/-- Bound arguments are bound to themselves: they supply every parameter. -/
theorem Binding.again (h : f.Binding kwargs bound) : f.Binding bound bound := by
  have hnames : ∀ {name : String}, name ∈ bound.keys ↔ name ∈ f.declared := by
    intro name
    rw [h.names, mem_firstBy_id]
  refine ⟨⟨fun keyword hkeyword => hnames.mp hkeyword, fun p hp _ =>
    hnames.mpr (List.mem_map_of_mem hp)⟩, h.names, fun name hname => ?_⟩
  obtain ⟨v, hv⟩ := Option.isSome_iff_exists.mp
    ((Entries.get?_isSome_iff bound name).mpr (hnames.mpr hname))
  rw [hv, Option.some_or]

/-- Binding keyword arguments succeeds exactly if they fit the parameters. Then the bound arguments
have the declared names with the supplied values and the defaults, the order of the keywords does
not matter, binding them again changes nothing, and the recipe of the factory is made with them.
Otherwise the first unexpected keyword or else the first missing parameter is reported, and what
would be made is of no account. -/
theorem binding_exact (f : Factory) (kwargs : Kwargs) (hnodup : (Entries.keys kwargs).Nodup) :
    ((∃ bound, f.bind kwargs = .ok bound) ↔ f.Fits kwargs) ∧
      (∀ bound, f.bind kwargs = .ok bound ↔ f.Binding kwargs bound) ∧
      (∀ e, f.bind kwargs = .error e ↔ f.Rejects kwargs e) ∧
      (∀ bound, f.bind kwargs = .ok bound →
        (∀ others : Kwargs, kwargs.Perm others → f.bind others = .ok bound) ∧
          f.bind bound = .ok bound ∧
          ∀ (make : Builder) (w : Workshop),
            f.construct kwargs make w = make.build f.recipe bound w) ∧
      ∀ e, f.bind kwargs = .error e → ∀ (recipe : Recipe) (make : Builder) (w : Workshop),
        Factory.construct { f with recipe } kwargs make w = (.error (.arguments e), w) := by
  refine ⟨⟨?_, ?_⟩, fun bound => bind_eq_ok_iff, fun e => bind_eq_error_iff, ?_, ?_⟩
  · rintro ⟨bound, hbound⟩
    exact (bind_eq_ok_iff.mp hbound).fits
  · intro hfits
    obtain ⟨bound, hbound, -⟩ := hfits.bind
    exact ⟨bound, hbound⟩
  · intro bound hbound
    have hbinding := bind_eq_ok_iff.mp hbound
    refine ⟨fun others hperm => bind_eq_ok_iff.mpr (hbinding.perm hnodup hperm),
      bind_eq_ok_iff.mpr hbinding.again, fun make w => ?_⟩
    rw [construct, hbound]
  · intro e herror recipe make w
    have hsame : Factory.bind { f with recipe } kwargs = .error e := herror
    rw [construct, hsame]

end Factory

namespace Repeated

/-- A factory that declares a size twice. -/
def disk : Factory where
  tag := .given 0
  name := "Disk"
  params := [⟨"size", some (.int 4)⟩, ⟨"kind", none⟩, ⟨"size", some (.int 8)⟩]
  requires := []
  location := none
  recipe := .kwargs

def given : Kwargs := [("kind", .str "ssd")]

/-- The size keeps its place in front of the kind and has its second default. -/
def filled : Kwargs := [("size", .int 8), ("kind", .str "ssd")]

theorem binds_last_default :
    (Entries.keys given).Nodup ∧ disk.Binding given filled ∧ disk.bind filled = .ok filled ∧
      ∀ (make : Builder) (w : Workshop),
        disk.construct given make w = make.build disk.recipe filled w := by
  have hnodup : (Entries.keys given).Nodup := by decide
  have hbound : disk.bind given = .ok filled := rfl
  obtain ⟨-, hbinding, -, hok, -⟩ := Factory.binding_exact disk given hnodup
  obtain ⟨-, hagain, hrun⟩ := hok filled hbound
  exact ⟨hnodup, (hbinding filled).mp hbound, hagain, hrun⟩

end Repeated

end AppAssembly

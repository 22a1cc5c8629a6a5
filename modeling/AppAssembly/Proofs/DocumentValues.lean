import AppAssembly.Loader.Load
import Mathlib.Data.List.Forall2

/-!
# What document values stand for

Plain data and lists are taken over as they are; a table stands for a factory, for a callable or for
nothing at all, and most tables stand for none of these. A value is converted exactly if all of its
tables stand for something. Otherwise the first one that doesn't is the one that is reported: lists
are converted from left to right, and nothing behind a failure is looked at.
-/

namespace AppAssembly

/-- The fields of a table. -/
abbrev RawValue.Fields := List (String × RawValue)

namespace RawValue

mutual

/-- The tables of a raw value, at any depth of lists, from left to right. -/
def tables : RawValue → List Fields
  | .list items => tablesAll items
  | .table fields => [fields]
  | .null | .bool _ | .integer _ | .float _ | .str _ => []

def tablesAll : List RawValue → List Fields
  | [] => []
  | raw :: rest => tables raw ++ tablesAll rest

end

end RawValue

namespace Catalog

open RawValue

/-- The value that a table stands for. -/
inductive Stands (c : Catalog) : Fields → Value → Prop where
  | factory {name : String} {f : Factory} (known : c.factories.get? name = some f) :
      Stands c [("factory", .str name)] (.factory f)
  | callable {name : String} {callable : Callable} (known : c.callables.get? name = some callable) :
      Stands c [("callable", .str name)] (.callable callable)
  | suppressed : Stands c [("suppress", .bool true)] .null

/-- The fault of a table that stands for nothing: the name is not registered, or the table has not
the form of any that could stand for something. -/
inductive Refuses (c : Catalog) : Fields → Error → Prop where
  | factory {name : String} (unknown : c.factories.get? name = none) :
      Refuses c [("factory", .str name)] (.config (.unknownFactory name))
  | callable {name : String} (unknown : c.callables.get? name = none) :
      Refuses c [("callable", .str name)] (.config (.unknownCallable name))
  | form {fields : Fields} (factory : ∀ name, fields ≠ [("factory", .str name)])
      (callable : ∀ name, fields ≠ [("callable", .str name)])
      (suppress : fields ≠ [("suppress", .bool true)]) :
      Refuses c fields (.config (.unsupportedTable (Json.compact (.table fields))))

/-- The fault of the first table that stands for nothing. -/
def FirstRefused (c : Catalog) (tables : List Fields) (e : Error) : Prop :=
  ∃ before fields after, tables = before ++ fields :: after ∧
    (∀ earlier ∈ before, ∃ v, c.Stands earlier v) ∧ c.Refuses fields e

/-- A raw value and what it is converted to: of the same shape, with the tables replaced. A whole
number that does not fit into 64 bits with a sign becomes the nearest double. -/
inductive Converts (c : Catalog) : RawValue → Value → Prop where
  | null : Converts c .null .null
  | bool (b : Bool) : Converts c (.bool b) (.bool b)
  | integer {n : Int} (fits : Int64.minValue.toInt ≤ n ∧ n ≤ Int64.maxValue.toInt) :
      Converts c (.integer n) (.int n)
  | large {n : Int} (large : ¬ (Int64.minValue.toInt ≤ n ∧ n ≤ Int64.maxValue.toInt)) :
      Converts c (.integer n) (.float (Decimal.ofInt n))
  | float (x : Float) : Converts c (.float x) (.float x)
  | str (s : String) : Converts c (.str s) (.str s)
  | list {items : List RawValue} {values : List Value}
      (each : List.Forall₂ (Converts c) items values) : Converts c (.list items) (.list values)
  | table {fields : Fields} {v : Value} (stands : c.Stands fields v) :
      Converts c (.table fields) v

variable {c : Catalog}

/-! ## Tables -/

theorem stands_or_refuses (c : Catalog) (fields : Fields) :
    (∃ v, c.Stands fields v) ∨ ∃ e, c.Refuses fields e := by
  by_cases hfactory : ∃ name, fields = [("factory", .str name)]
  · obtain ⟨name, rfl⟩ := hfactory
    cases h : c.factories.get? name with
    | some f => exact .inl ⟨_, .factory h⟩
    | none => exact .inr ⟨_, .factory h⟩
  by_cases hcallable : ∃ name, fields = [("callable", .str name)]
  · obtain ⟨name, rfl⟩ := hcallable
    cases h : c.callables.get? name with
    | some callable => exact .inl ⟨_, .callable h⟩
    | none => exact .inr ⟨_, .callable h⟩
  by_cases hsuppress : fields = [("suppress", .bool true)]
  · subst hsuppress
    exact .inl ⟨_, .suppressed⟩
  · exact .inr ⟨_, .form (not_exists.mp hfactory) (not_exists.mp hcallable) hsuppress⟩

theorem Stands.value_eq {fields : Fields} {v : Value} (h : c.Stands fields v) :
    c.value (.table fields) = .ok v := by
  cases h with
  | factory known => simp [value, Catalog.factory, known, Except.map]
  | callable known => simp [value, Catalog.callable, known, Except.map]
  | suppressed => rfl

theorem Refuses.value_eq {fields : Fields} {e : Error} (h : c.Refuses fields e) :
    c.value (.table fields) = .error e := by
  cases h with
  | factory unknown => simp [value, Catalog.factory, unknown, Except.map]
  | callable unknown => simp [value, Catalog.callable, unknown, Except.map]
  | form hfactory hcallable hsuppress =>
      unfold value
      split
      all_goals first
        | rfl
        | simp_all

/-! ## The first fault -/

/-- Among tables that do not all stand for something there is a first one that doesn't. -/
theorem all_stand_or_firstRefused (c : Catalog) (tables : List Fields) :
    (∀ fields ∈ tables, ∃ v, c.Stands fields v) ∨ ∃ e, c.FirstRefused tables e := by
  induction tables with
  | nil => exact .inl (by simp)
  | cons fields rest ih =>
      rcases stands_or_refuses c fields with hfields | ⟨e, he⟩
      · rcases ih with hrest | ⟨e, before, refused, after, rfl, hbefore, he⟩
        · exact .inl (List.forall_mem_cons.mpr ⟨hfields, hrest⟩)
        · exact .inr ⟨e, fields :: before, refused, after, rfl,
            List.forall_mem_cons.mpr ⟨hfields, hbefore⟩, he⟩
      · exact .inr ⟨e, [], fields, rest, rfl, by simp, he⟩

/-- A fault among the tables of two raw values is one of the first, or all of the first stand for
something and it is one of the second. -/
theorem FirstRefused.of_append {tables others : List Fields} {e : Error}
    (h : c.FirstRefused (tables ++ others) e) :
    c.FirstRefused tables e ∨
      (∀ fields ∈ tables, ∃ v, c.Stands fields v) ∧ c.FirstRefused others e := by
  obtain ⟨before, fields, after, hsplit, hbefore, he⟩ := h
  rcases List.append_eq_append_iff.mp hsplit with ⟨between, rfl, hothers⟩ | ⟨between, rfl, hrest⟩
  · refine .inr ⟨fun earlier hearlier => hbefore earlier (List.mem_append_left _ hearlier), ?_⟩
    exact ⟨between, fields, after, hothers,
      fun earlier hearlier => hbefore earlier (List.mem_append_right _ hearlier), he⟩
  · cases between with
    | nil =>
        refine .inr ⟨by simpa using hbefore, [], fields, after, ?_, by simp, he⟩
        simpa using hrest.symm
    | cons first between =>
        obtain ⟨rfl, -⟩ := List.cons.inj hrest
        exact .inl ⟨before, fields, between, rfl, hbefore, he⟩

/-! ## Conversion, by recursion on the raw value -/

theorem converts_number (n : Int) (v : Value) :
    c.Converts (.integer n) v ↔
      v = if RawValue.fits 63 n then .int n else .float (Decimal.ofInt n) := by
  have hfits : RawValue.fits 63 n = true ↔
      Int64.minValue.toInt ≤ n ∧ n ≤ Int64.maxValue.toInt := by
    have hmin : Int64.minValue.toInt = -(Nat.pow 2 63 : Nat) := rfl
    have hmax : Int64.maxValue.toInt + 1 = (Nat.pow 2 63 : Nat) := rfl
    rw [RawValue.fits, Bool.and_eq_true, decide_eq_true_eq, decide_eq_true_eq, ← hmin, ← hmax,
      Int.lt_add_one_iff]
  constructor
  · rintro (_ | _ | hin | hout)
    · rw [if_pos (hfits.mpr hin)]
    · rw [if_neg (mt hfits.mp hout)]
  · rintro rfl
    by_cases h : RawValue.fits 63 n = true
    · rw [if_pos h]
      exact .integer (hfits.mp h)
    · rw [if_neg h]
      exact .large (mt hfits.mpr h)

theorem values_cons_ok {raw : RawValue} {rest : List RawValue} {vs : List Value} :
    c.values (raw :: rest) = .ok vs ↔
      ∃ v others, c.value raw = .ok v ∧ c.values rest = .ok others ∧ vs = v :: others := by
  rw [values]
  cases hraw : c.value raw with
  | error e => simp [bind, Except.bind]
  | ok v =>
      cases hrest : c.values rest with
      | error e => simp [bind, Except.bind]
      | ok others => simp [bind, Except.bind, pure, Except.pure, eq_comm]

theorem value_list (items : List RawValue) :
    c.value (.list items) = (c.values items).map .list := by
  rw [value]

theorem value_table_ok_iff {fields : Fields} {v : Value} :
    c.value (.table fields) = .ok v ↔ c.Stands fields v := by
  refine ⟨fun hok => ?_, Stands.value_eq⟩
  rcases stands_or_refuses c fields with ⟨other, hother⟩ | ⟨e, he⟩
  · cases hok.symm.trans hother.value_eq
    exact hother
  · cases hok.symm.trans he.value_eq

mutual

/-- A raw value is converted to the value of the same shape and to no other. -/
theorem value_eq_ok_iff (c : Catalog) : ∀ (raw : RawValue) (v : Value),
    c.value raw = .ok v ↔ c.Converts raw v
  | .null, v => by
      rw [value, Except.ok.injEq]
      exact ⟨fun h => h ▸ .null, fun h => by cases h; rfl⟩
  | .bool b, v => by
      rw [value, Except.ok.injEq]
      exact ⟨fun h => h ▸ .bool b, fun h => by cases h; rfl⟩
  | .float x, v => by
      rw [value, Except.ok.injEq]
      exact ⟨fun h => h ▸ .float x, fun h => by cases h; rfl⟩
  | .str s, v => by
      rw [value, Except.ok.injEq]
      exact ⟨fun h => h ▸ .str s, fun h => by cases h; rfl⟩
  | .integer n, v => by
      rw [converts_number, value, Except.ok.injEq, eq_comm]
  | .table fields, v => by
      rw [value_table_ok_iff]
      exact ⟨.table, fun h => by cases h; assumption⟩
  | .list items, v => by
      rw [value_list]
      constructor
      · intro hok
        cases hvalues : c.values items with
        | error e => cases hvalues ▸ hok
        | ok values =>
            cases hvalues ▸ hok
            exact .list ((values_eq_ok_iff c items values).mp hvalues)
      · rintro ⟨⟩
        rename_i values hitems
        rw [(values_eq_ok_iff c items values).mpr hitems]
        rfl

theorem values_eq_ok_iff (c : Catalog) : ∀ (items : List RawValue) (values : List Value),
    c.values items = .ok values ↔ List.Forall₂ c.Converts items values
  | [], values => by
      rw [Catalog.values, Except.ok.injEq, List.forall₂_nil_left_iff, eq_comm]
  | raw :: rest, values => by
      rw [values_cons_ok, List.forall₂_cons_left_iff]
      simp only [value_eq_ok_iff c raw, values_eq_ok_iff c rest]

end

mutual

/-- If all tables stand for something, there is a value. -/
theorem value_of_all_stand (c : Catalog) : ∀ raw : RawValue,
    (∀ fields ∈ raw.tables, ∃ v, c.Stands fields v) → ∃ v, c.value raw = .ok v
  | .null, _ | .bool _, _ | .integer _, _ | .float _, _ | .str _, _ => ⟨_, rfl⟩
  | .table fields, h => by
      obtain ⟨v, hv⟩ := h fields (by simp [tables])
      exact ⟨v, hv.value_eq⟩
  | .list items, h => by
      obtain ⟨values, hvalues⟩ := values_of_all_stand c items (by simpa [tables] using h)
      exact ⟨.list values, by rw [value_list, hvalues]; rfl⟩

theorem values_of_all_stand (c : Catalog) : ∀ items : List RawValue,
    (∀ fields ∈ tablesAll items, ∃ v, c.Stands fields v) → ∃ values, c.values items = .ok values
  | [], _ => ⟨[], rfl⟩
  | raw :: rest, h => by
      rw [tablesAll, List.forall_mem_append] at h
      obtain ⟨v, hv⟩ := value_of_all_stand c raw h.1
      obtain ⟨others, hothers⟩ := values_of_all_stand c rest h.2
      exact ⟨v :: others, values_cons_ok.mpr ⟨v, others, hv, hothers, rfl⟩⟩

end

mutual

/-- The first table that stands for nothing is the one that is reported. -/
theorem value_of_firstRefused (c : Catalog) : ∀ (raw : RawValue) {e : Error},
    c.FirstRefused raw.tables e → c.value raw = .error e
  | .null, e, h | .bool _, e, h | .integer _, e, h | .float _, e, h | .str _, e, h => by
      obtain ⟨before, fields, after, hsplit, -⟩ := h
      simp [tables] at hsplit
  | .table fields, e, h => by
      obtain ⟨before, refused, after, hsplit, -, he⟩ := h
      rw [tables] at hsplit
      cases before with
      | nil =>
          obtain ⟨rfl, -⟩ := List.cons.inj hsplit
          exact he.value_eq
      | cons first before => simp at hsplit
  | .list items, e, h => by
      rw [value_list, values_of_firstRefused c items h]
      rfl

theorem values_of_firstRefused (c : Catalog) : ∀ (items : List RawValue) {e : Error},
    c.FirstRefused (tablesAll items) e → c.values items = .error e
  | [], e, h => by
      obtain ⟨before, fields, after, hsplit, -⟩ := h
      simp [tablesAll] at hsplit
  | raw :: rest, e, h => by
      rw [values]
      rcases h.of_append with hraw | ⟨hraw, hrest⟩
      · rw [value_of_firstRefused c raw hraw]
        rfl
      · obtain ⟨v, hv⟩ := value_of_all_stand c raw hraw
        rw [hv, values_of_firstRefused c rest hrest]
        rfl

end

/-- A raw value is converted exactly if each of its tables names a registered factory or callable or
is a suppression; what it is converted to has the same shape. Otherwise the fault of the first table
that is none of these is reported, whatever stands behind it. -/
theorem value_exact (c : Catalog) (raw : RawValue) :
    ((∃ v, c.value raw = .ok v) ↔ ∀ fields ∈ raw.tables, ∃ v, c.Stands fields v) ∧
      (∀ v, c.value raw = .ok v ↔ c.Converts raw v) ∧
      ∀ e, c.value raw = .error e ↔ c.FirstRefused raw.tables e := by
  refine ⟨⟨?_, value_of_all_stand c raw⟩, value_eq_ok_iff c raw, fun e =>
    ⟨fun herror => ?_, value_of_firstRefused c raw⟩⟩
  · rintro ⟨v, hok⟩
    refine (all_stand_or_firstRefused c raw.tables).resolve_right ?_
    rintro ⟨e, he⟩
    cases hok.symm.trans (value_of_firstRefused c raw he)
  · rcases all_stand_or_firstRefused c raw.tables with hall | ⟨other, hother⟩
    · obtain ⟨v, hok⟩ := value_of_all_stand c raw hall
      cases herror.symm.trans hok
    · cases herror.symm.trans (value_of_firstRefused c raw hother)
      exact hother

end Catalog

end AppAssembly

import AppAssembly.Proofs.Accusations
import AppAssembly.Proofs.Drafts
import AppAssembly.Proofs.FailStop
import AppAssembly.Proofs.Inheritance
import AppAssembly.Proofs.Override

/-!
# What is installed, and in which order

The installers of a type are read off its layers, from the most derived one on and up to the first
whose block does not extend. The first layer that mentions an identity has the last word on it, also
if it only takes it back (`CompiledType.selects`). A type declares at most one block for its layer,
under either name (`Compilation.own_installers`).

Installing goes through this list in order and stops where something fails. What fails is one of
four things, and only two of them are reported as the installer's own (`runInstaller_installs`).
-/

namespace AppAssembly

open Compile Instance

/-! ## Selecting -/

/-- What is left by walking along a list stands in the order of the list. -/
theorem firstBy_sublist {α κ : Type} [DecidableEq κ] (key : α → κ) (l : List α) :
    (firstBy key l).Sublist l := by
  induction l with
  | nil => exact .slnil
  | cons a rest ih => exact (List.filter_sublist.trans ih).cons_cons a

theorem find?_recorded {α : Type} (records : Layer → List α) (layers : List Layer)
    (p : α → Bool) :
    (recorded records layers).find? (fun entry => p entry.2) =
      layers.findSome? fun layer => ((records layer).find? p).map fun a => (layer, a) := by
  rw [recorded, List.find?_flatMap]
  congr 1
  funext layer
  exact List.find?_map

/-- Whether a layer's installer block has a word on an identity. -/
def Layer.mentions (l : Layer) (identity : String) : Bool :=
  l.ledger.installers.any fun block => block.entries.contains identity

/-- The installers that a layer's block gives a path, in the order of the declaration. -/
def Layer.offers (l : Layer) : List Installer :=
  l.ledger.installers.toList.flatMap fun block =>
    block.entries.filterMap fun (identity, path) =>
      path.map fun path => ⟨identity, path, block.origin⟩

namespace CompiledType

theorem find?_layerInstallers (layer : Layer) (identity : String) :
    (layerInstallers layer).find? (fun mention => mention.1 = identity) =
      layer.ledger.installers.bind fun block =>
        (block.entries.get? identity).map fun path => (identity, path, block.origin) := by
  unfold layerInstallers installerMentions
  cases layer.ledger.installers with
  | none => rfl
  | some block =>
      rw [Option.toList_some, List.flatMap_singleton, Option.bind_some]
      induction block.entries with
      | nil => rfl
      | cons entry rest ih =>
          obtain ⟨key, path⟩ := entry
          by_cases hkey : key = identity
          · simp [hkey, Entries.get?_cons]
          · simpa [hkey, Entries.get?_cons] using ih

/-- How some installers are selected, each next to the layer that it is from. -/
structure Selects (t : CompiledType) (selected : List (Layer × Installer)) : Prop where
  /-- Among the layers that count the first one that mentions the identity gives it this path. -/
  mem_iff : ∀ layer installer, (layer, installer) ∈ selected ↔
    (installerLayers t.layers).find? (fun l => l.mentions installer.identity) = some layer ∧
    ∃ block, layer.ledger.installers = some block ∧
      block.entries.get? installer.identity = some (some installer.path) ∧
      installer.origin = block.origin
  distinct : (selected.map fun entry => entry.2.identity).Nodup
  /-- They stand in the order of the layers, and within a layer in that of its declaration. -/
  ordered : selected.Sublist (recorded Layer.offers (installerLayers t.layers))

theorem mem_installersBy_iff (t : CompiledType) (layer : Layer) (installer : Installer) :
    (layer, installer) ∈ t.installersBy ↔
      (installerLayers t.layers).find? (fun l => l.mentions installer.identity) = some layer ∧
      ∃ block, layer.ledger.installers = some block ∧
        block.entries.get? installer.identity = some (some installer.path) ∧
        installer.origin = block.origin := by
  obtain ⟨identity, path, origin⟩ := installer
  have hmentions : (fun l : Layer => (l.ledger.installers.bind fun block =>
      (block.entries.get? identity).map fun path => (identity, path, block.origin)).isSome) =
        fun l => l.mentions identity := by
    funext l
    rw [Layer.mentions]
    cases l.ledger.installers <;> simp [Entries.contains]
  have hfirst : (layer, (⟨identity, path, origin⟩ : Installer)) ∈ t.installersBy ↔
      (layer, identity, some path, origin) ∈ firstBy (fun entry => entry.2.1)
        (recorded layerInstallers (installerLayers t.layers)) := by
    unfold installersBy
    rw [List.mem_filterMap]
    constructor
    · rintro ⟨⟨l, key, p, o⟩, hmem, heq⟩
      obtain ⟨q, rfl, heq⟩ := Option.map_eq_some_iff.mp heq
      cases heq
      exact hmem
    · exact fun hmem => ⟨_, hmem, rfl⟩
  have hwalk := find?_recorded layerInstallers (installerLayers t.layers)
    fun mention => decide (mention.1 = identity)
  rw [hfirst, mem_firstBy_iff]
  show (recorded layerInstallers _).find? (fun entry => entry.2.1 = identity) = _ ↔ _
  rw [hwalk, findSome?_eq_some_iff_find?]
  simp only [Option.isSome_map, find?_layerInstallers, hmentions, Option.map_eq_some_iff,
    Option.bind_eq_some_iff]
  constructor
  · rintro ⟨l, hl, _, ⟨block, hblock, p, hp, rfl⟩, heq⟩
    cases heq
    exact ⟨hl, block, hblock, hp, rfl⟩
  · rintro ⟨hl, block, hblock, hp, rfl⟩
    exact ⟨layer, hl, _, ⟨block, hblock, _, hp, rfl⟩, rfl⟩

/-- The mentions with a path are what the layers offer. -/
theorem recorded_offers (layers : List Layer) :
    (recorded layerInstallers layers).filterMap (fun (layer, identity, path, origin) =>
        path.map fun path => (layer, (⟨identity, path, origin⟩ : Installer))) =
      recorded Layer.offers layers := by
  unfold recorded
  rw [List.filterMap_flatMap]
  congr 1
  funext layer
  unfold layerInstallers installerMentions Layer.offers
  cases layer.ledger.installers with
  | none => rfl
  | some block =>
      rw [Option.toList_some, List.flatMap_singleton, List.flatMap_singleton, List.filterMap_map,
        List.filterMap_map, List.map_filterMap]
      congr 1
      funext ⟨identity, path⟩
      cases path <;> rfl

theorem installersBy_sublist (t : CompiledType) :
    t.installersBy.Sublist (recorded Layer.offers (installerLayers t.layers)) := by
  rw [← recorded_offers]
  exact (firstBy_sublist _ _).filterMap _

/-- The installers of a type are selected from the layers that count. -/
theorem selects (t : CompiledType) : t.Selects t.installersBy where
  mem_iff := t.mem_installersBy_iff
  distinct := by
    have hnodup := t.nodup_installers
    rw [installers_eq, List.map_map] at hnodup
    exact hnodup
  ordered := t.installersBy_sublist

end CompiledType

/-! ## The installer block of a layer -/

/-- Whether a block declares installers. It may go by two names. -/
def Block.installs (b : Block) : Bool :=
  b.kind = .install || b.kind = .installers

/-- The installers that a block declares. A null takes an inherited one back. -/
def Declaration.installerBlock (d : Declaration) : InstallerBlock :=
  ⟨d.block.entries.mapValues Value.str?, d.block.mergesInherited, d.origin⟩

/-- The installers that a type declares, if it has a block for them. -/
def Compilation.installerBlock? (c : Compilation) : Option InstallerBlock :=
  (c.spec.blocks.find? Block.installs).map fun b => (c.site.declaration b).installerBlock

section

variable {d : Declaration} {l after : Ledger} {products : Products}

theorem Handler.installersNamed_records {name : String}
    (h : (installersNamed name).handle d l = .ok (products, after)) :
    l.installers = none ∧ after.installers = some d.installerBlock := by
  unfold installersNamed Ledger.setInstallers at h
  dsimp only at h
  split at h
  · cases h
  rename_i hreadable
  split at h
  · rename_i hset
    split at hset
    · cases hset
    rename_i hnone
    cases hset
    cases h
    refine ⟨hnone, ?_⟩
    -- every entry is a path or a null
    have hentries : (d.block.entries.mapValues fun v => (installerPath? v).getD none) =
        d.block.entries.mapValues Value.str? := by
      refine List.map_congr_left fun entry hentry => ?_
      have hread := List.find?_eq_none.mp hreadable entry hentry
      obtain ⟨key, v⟩ := entry
      cases v <;> simp_all [installerPath?, Value.str?]
    rw [hentries]
    rfl
  · cases h

/-- A built-in handler that does not answer to installers leaves them alone. -/
theorem Handler.installers_of_handle {handler : Handler}
    (hfind : d.block.kind.handler? = some handler) (hother : d.block.installs = false)
    (h : handler.handle d l = .ok (products, after)) : after.installers = l.installers := by
  unfold Block.installs at hother
  cases hkind : d.block.kind <;> rw [hkind] at hfind hother <;> cases hfind
  · cases h
    rfl
  · unfold checkers at h
    dsimp only at h
    split at h
    · cases h
    rw [foldl_recordChecker] at h
    cases h
    rfl
  · unfold components at h
    dsimp only at h
    rw [recordComponentFactories_eq] at h
    cases h
    rfl
  · cases hother
  · cases hother
  · unfold methods at h
    dsimp only at h
    split at h
    · cases h
    rw [foldl_recordMethod] at h
    cases h
    rfl
  · unfold requires at h
    dsimp only at h
    rw [foldl_recordSuppression] at h
    split at h
    · rename_i hrecorded
      cases h
      rw [recordRequired_eq_ok hrecorded]
    · cases h

/-- One declaration sets the installers of a layer, or leaves them alone. -/
theorem Compile.Draft.Takes.installers {draft next : Draft}
    (h : draft.Takes .builtIn d products next) :
    if d.block.installs then
      draft.ledger.installers = none ∧ next.ledger.installers = some d.installerBlock
    else next.ledger.installers = draft.ledger.installers := by
  obtain ⟨after, hanswers, hledger⟩ := h.exists_answers
  have hnext : next.ledger.installers = after.installers := by
    rw [hledger]
    rfl
  rw [hnext]
  cases hanswers with
  | @handled handler products after found handled =>
      rw [HandlerRegistry.find?_builtIn] at found
      split
      · rename_i hinstalls
        simp only [Block.installs, Bool.or_eq_true, decide_eq_true_eq] at hinstalls
        have hnamed : ∃ name, handler = Handler.installersNamed name := by
          rcases hinstalls with hkind | hkind
          · rw [show BlockKind.ofName d.block.identity = .install from hkind] at found
            exact ⟨_, (Option.some.inj found).symm⟩
          · rw [show BlockKind.ofName d.block.identity = .installers from hkind] at found
            exact ⟨_, (Option.some.inj found).symm⟩
        obtain ⟨name, rfl⟩ := hnamed
        exact Handler.installersNamed_records handled
      · rename_i hother
        exact Handler.installers_of_handle found (by simpa using hother) handled
  | described unknown described =>
      rw [HandlerRegistry.find?_builtIn] at unknown
      have hkind : d.block.kind = .custom := BlockKind.eq_custom unknown
      have hother : d.block.installs = false := by simp [Block.installs, hkind]
      rw [hother, Ledger.recordFactory_eq]
      rfl

end

namespace Compile.Draft.TakesAll

variable {draft last : Draft} {made : List (Declaration × Products)}

/-- Installers that are set stay as they are. -/
theorem keeps_installers (h : draft.TakesAll .builtIn made last) {block : InstallerBlock}
    (hset : draft.ledger.installers = some block) : last.ledger.installers = some block := by
  induction h with
  | done => exact hset
  | next first _ ih =>
      have hstep := first.installers
      split at hstep
      · rw [hset] at hstep
        cases hstep.1
      · exact ih (hstep.trans hset)

theorem installers_of_mem (h : draft.TakesAll .builtIn made last) {entry : Declaration × Products}
    (hentry : entry ∈ made) (hinstalls : entry.1.block.installs = true) :
    last.ledger.installers = some entry.1.installerBlock := by
  induction h with
  | done => cases hentry
  | next first rest ih =>
      rcases List.mem_cons.mp hentry with rfl | hentry
      · have hstep := first.installers
        rw [if_pos hinstalls] at hstep
        exact rest.keeps_installers hstep.2
      · exact ih hentry

theorem installers_of_none (h : draft.TakesAll .builtIn made last)
    (hnone : ∀ entry ∈ made, entry.1.block.installs = false) :
    last.ledger.installers = draft.ledger.installers := by
  induction h with
  | done => rfl
  | next first _ ih =>
      obtain ⟨hfirst, hrest⟩ := List.forall_mem_cons.mp hnone
      have hstep := first.installers
      rw [hfirst] at hstep
      exact (ih hrest).trans hstep

end Compile.Draft.TakesAll

/-- The installer block of a layer is the one that its type declares. -/
theorem Compilation.own_installers {c : Compilation} (hbuiltIn : c.handlers = .builtIn)
    (hunwritten : c.spec.ledger.installers = none) :
    c.compiled.own.ledger.installers = c.installerBlock? := by
  obtain ⟨made, draft, hdrafted⟩ := c.exists_drafted
  have htakes := hdrafted.takes
  rw [hbuiltIn] at htakes
  have hown : c.compiled.own.ledger.installers = draft.ledger.installers := by
    rw [hdrafted.ledger]
    rfl
  rw [hown, installerBlock?]
  cases hfind : c.spec.blocks.find? Block.installs with
  | none =>
      have hnone := List.find?_eq_none.mp hfind
      rw [htakes.installers_of_none fun entry hentry => ?_]
      · exact hunwritten
      · obtain ⟨b, hb, hd⟩ := hdrafted.exists_block hentry
        rw [hd]
        exact eq_false_of_ne_true (hnone b hb)
  | some b =>
      obtain ⟨products, hmem⟩ := hdrafted.exists_products (List.mem_of_find?_eq_some hfind)
      exact htakes.installers_of_mem hmem (List.find?_some hfind)

/-! ## Installing -/

theorem Act.fst_bind_unit {σ α : Type} (act : Act σ α) (s : σ) :
    ((act >>= fun _ => (pure () : Act σ Unit)) s).1 = (act s).1.map fun _ => () := by
  rw [Act.bind_apply]
  rcases act s with ⟨_ | _, _⟩ <;> rfl

namespace Instance

variable {i j : Instance} {eval : Evaluator} {installer : Installer}

/-- What comes of an installer at some moment. -/
inductive Installs (eval : Evaluator) (installer : Installer) (i : Instance) :
    Except Error Unit → Prop where
  /-- A delegate on the way fails; its error is passed on. -/
  | raised {e : Error} (raises : (seek (Path.ofText installer.path).head i).1 = .error e)
      (other : e.isPathNotFound = false) : Installs eval installer i (.error e)
  /-- The path leads nowhere. -/
  | missing {found : List String}
      (lost : (get installer.path i).1 =
        .error (.pathNotFound ⟨installer.path, i.describe, found⟩)) :
      Installs eval installer i (.error (.requirement .installing
        ⟨installer.path, i.describe, found⟩ installer.identity installer.origin))
  /-- The target has no method to install it. -/
  | unfit {v : Value} (target : (get installer.path i).1 = .ok v)
      (unfit : v.isInstallable = false) :
      Installs eval installer i (.error (.requirementAttribute .installing installer.path v.describe
        installMethod installer.identity installer.origin))
  /-- The method is called; its error is passed on. -/
  | called {o : Obj} {r : Except Error Value} (target : (get installer.path i).1 = .ok (.object o))
      (fit : Entries.contains o.methods installMethod = true)
      (calls : (o.call eval installMethod []
        (note (.install installer.identity) (get installer.path i).2).2).1 = r) :
      Installs eval installer i (r.map fun _ => ())

theorem runInstaller_unfit {v : Value} (h : get installer.path i = (.ok v, j))
    (hv : v.isInstallable = false) :
    (runInstaller eval installer i).1 = .error (.requirementAttribute .installing installer.path
      v.describe installMethod installer.identity installer.origin) := by
  unfold runInstaller
  rw [Act.bind_ok (Act.mapError_ok h)]
  unfold Value.isInstallable at hv
  cases v with
  | object o =>
      simp only [hv, Bool.false_eq_true, if_false]
      rfl
  | _ => rfl

theorem runInstaller_fit {v : Value} (h : get installer.path i = (.ok v, j))
    (hv : v.isInstallable = true) : ∃ o : Obj, v = .object o ∧
      (runInstaller eval installer i).1 =
        (o.call eval installMethod [] (note (.install installer.identity) j).2).1.map
          fun _ => () := by
  obtain ⟨o, ho, hrun⟩ : ∃ o : Obj, v = .object o ∧ runInstaller eval installer i = _ :=
    runInstaller_called h hv
  have hnoted : note (.install installer.identity) j =
      (.ok (), (note (.install installer.identity) j).2) := rfl
  refine ⟨o, ho, ?_⟩
  rw [hrun, Act.bind_ok hnoted, Act.fst_bind_unit]

theorem runInstaller_installs (eval : Evaluator) (installer : Installer) (i : Instance) :
    i.Installs eval installer (runInstaller eval installer i).1 := by
  have hget := get_apply installer.path i
  cases hseek : (seek (Path.ofText installer.path).head i).1 with
  | error e =>
      have hother := (accuses_of_seek hseek).isPathNotFound
      rw [hseek] at hget
      have hrun : (runInstaller eval installer i).1 = .error e := by
        unfold runInstaller
        rw [Act.bind_error (Act.mapError_error hget), Error.intoRequirement_of_other hother]
      rw [hrun]
      exact .raised hseek hother
  | ok first =>
      rw [hseek] at hget
      rcases Path.follow_cases installer.path i.describe first with ⟨v, hv⟩ | ⟨found, hfound⟩
      · have hfound : get installer.path i = (.ok v, _) := hget.trans (congrArg (·, _) hv)
        have htarget : (get installer.path i).1 = .ok v := by rw [hfound]
        cases hfit : v.isInstallable with
        | false =>
            rw [runInstaller_unfit hfound hfit]
            exact .unfit htarget hfit
        | true =>
            obtain ⟨o, rfl, hrun⟩ : ∃ o : Obj, v = .object o ∧
                (runInstaller eval installer i).1 = _ := runInstaller_fit hfound hfit
            rw [hrun]
            exact .called htarget hfit (by rw [hfound])
      · have hlost : get installer.path i =
            (.error (.pathNotFound ⟨installer.path, i.describe, found⟩), _) :=
          hget.trans (congrArg (·, _) hfound)
        have hrun : (runInstaller eval installer i).1 = .error (.requirement .installing
            ⟨installer.path, i.describe, found⟩ installer.identity installer.origin) := by
          unfold runInstaller
          rw [Act.bind_error (Act.mapError_error hlost)]
          rfl
        rw [hrun]
        exact .missing (by rw [hlost])

/-- What installing begins, each installer with the moment at which it is begun. -/
def installCourse (eval : Evaluator) (i : Instance) : List (Installer × Instance) :=
  Act.course (runInstaller eval) i.compiled.installers (i.begun .install)

theorem flatMap_of_filter {α β : Type} (p : α → Bool) (f : α → β) (l : List α) :
    (l.flatMap fun a => if p a then [f a] else []) = (l.filter p).map f := by
  induction l with
  | nil => rfl
  | cons a rest ih =>
      rw [List.flatMap_cons, ih]
      cases hp : p a <;> simp [hp]

/-- Once the things are there, the targets with the method for it are all that is called. -/
theorem installAll_works (heval : eval.Bounded) (hi : i.materialized = true) :
    (installAll eval i).2.works = i.works ++
      ((Act.course (runInstaller eval) i.compiled.installers i).filter fun m =>
        m.2.finds m.1.path Value.isInstallable).map fun m => .install m.1.identity := by
  have hkeeps : ∀ installer, (runInstaller eval installer).Keeps Lasts := fun installer =>
    ((becomes_calls heval.free.becomes).runInstaller (note_becomes rfl)).mono Becomes.lasts
  rw [← flatMap_of_filter]
  exact Act.log_course (I := fun k => k.materialized = true)
    (fun installer _ k hk => (hkeeps installer k).materialized hk)
    (fun installer _ k hk => runInstaller_works heval hk installer) hi

/-- How installing goes along the installers of the type. -/
structure InstallsInOrder (eval : Evaluator) (i : Instance) : Prop where
  begins : (i.installCourse eval).map Prod.fst <+: i.compiled.installers
  complete : (install eval i).1 = .ok () →
    (i.installCourse eval).map Prod.fst = i.compiled.installers
  each : ∀ m ∈ i.installCourse eval, m.2.Installs eval m.1 (runInstaller eval m.1 m.2).1
  /-- What fails is the last that was begun, and its error is the outcome. -/
  stops : Act.Stops (fun (m : Installer × Instance) e => (runInstaller eval m.1 m.2).1 = .error e)
    (i.installCourse eval) (install eval i).1
  ok_iff : (install eval i).1 = .ok () ↔
    ∀ m ∈ i.installCourse eval, (runInstaller eval m.1 m.2).1 = .ok ()
  /-- The method of every target that has one is called once, and nothing else is. -/
  noted : eval.Bounded → i.materialized = true →
    (install eval i).2.works = i.works ++
      ((i.installCourse eval).filter fun m => m.2.finds m.1.path Value.isInstallable).map
        fun m => .install m.1.identity

theorem installsInOrder (eval : Evaluator) (hphase : i.phase = .validated) :
    i.InstallsInOrder eval := by
  have hadmitted : i.misstep? .install = none := by
    unfold misstep?
    simp [hphase, Step.needs]
  have hrun : installAll eval (i.begun .install) =
      Act.forEach i.compiled.installers (runInstaller eval) (i.begun .install) := rfl
  obtain ⟨r, k, hall⟩ : ∃ r k, installAll eval (i.begun .install) = (r, k) := ⟨_, _, rfl⟩
  have hundertaken : install eval i =
      (r, { k with workshop := k.workshop.note (ending .install r) }) :=
    undertake_begun hadmitted hall
  have hinstall : (install eval i).1 =
      (Act.forEach i.compiled.installers (runInstaller eval) (i.begun .install)).1 := by
    rw [hundertaken, ← hrun, hall]
  constructor
  case begins => exact Act.course_begins _ _ _
  case complete =>
    intro hok
    exact Act.course_of_ok (hinstall ▸ hok)
  case each => exact fun m _ => runInstaller_installs eval m.1 m.2
  case stops =>
    rw [hinstall]
    exact Act.stops_course _ _ _
  case ok_iff =>
    rw [hinstall]
    exact Act.forEach_eq_ok_iff
  case noted =>
    intro heval hmaterialized
    have hworks := installAll_works (i := i.begun .install) heval
      (by simp [begun, hmaterialized])
    have hdone : (install eval i).2.works = (installAll eval (i.begun .install)).2.works := by
      rw [hundertaken, hall]
      cases r <;> simp [works, Workshop.note, ending, Deed.isWork]
    have hbegun : (i.begun .install).works = i.works := by
      simp [works, begun, Workshop.note, Deed.isWork]
    rw [hdone, hworks, hbegun]
    rfl

end Instance

/-- What is installed, and in which order. The installers of a type are the selected ones of its
layers, and the installer block of a layer is the one that its type declares. Installing a validated
instance goes through them in order, up to the first that fails. -/
theorem Hierarchy.installs_selected {cs : List Compilation} (h : Hierarchy cs) {c : Compilation}
    (hc : c ∈ cs) :
    c.compiled.installers = c.compiled.installersBy.map Prod.snd ∧
    c.compiled.Selects c.compiled.installersBy ∧
    (∀ layer ∈ c.compiled.layers, ∃ d ∈ cs, d.compiled.own = layer ∧
      (d.handlers = .builtIn → d.spec.ledger.installers = none →
        layer.ledger.installers = d.installerBlock?)) ∧
    ∀ (eval : Evaluator) (i : Instance), i.compiled = c.compiled → i.phase = .validated →
      i.InstallsInOrder eval := by
  refine ⟨c.compiled.installers_eq, c.compiled.selects, ?_, ?_⟩
  · intro layer hlayer
    obtain ⟨d, hd, rfl, _⟩ := (h.chain hc).made layer hlayer
    exact ⟨d, hd, rfl, Compilation.own_installers⟩
  · intro eval i _ hphase
    exact i.installsInOrder eval hphase

/-! ## Both names of the block, and a cut

The middle type drops the installers of the root, and the leaf takes back one of the middle's. -/

namespace Rack

def device : Value :=
  .object ⟨.given 0, "Device", [], [(installMethod, .give .null)]⟩

def first : Block :=
  { identity := "Install", entries := [("disk", .str "disk"), ("fan", .str "fan")] }

def cutting : Block :=
  { identity := "installers", extend := some false,
    entries := [("tape", .str "tape"), ("disk", .str "disk"), ("net", .str "net")] }

def last : Block :=
  { identity := "install", entries := [("disk", .null), ("lamp", .str "lamp")] }

def root : Compilation :=
  .ofOk .builtIn 0 { name := "Root", blocks := [first], members := [("disk", device)] } []
    (by decide +kernel)

def middle : Compilation :=
  .ofOk .builtIn 1 { name := "Middle", blocks := [cutting], members := [("tape", .int 3)] }
    [root.compiled] (by decide +kernel)

def leaf : Compilation :=
  .ofOk .builtIn 2 { name := "Leaf", blocks := [last], members := [("lamp", device)] }
    [middle.compiled] (by decide +kernel)

theorem hierarchy : Hierarchy [leaf, middle, root] := by
  refine .compile (.compile (.compile .empty ?_ ?_) ?_ ?_) ?_ ?_
  all_goals simp [root, middle, leaf, Compilation.ofOk]

def start : Instance :=
  { Instance.ofType leaf.compiled with phase := .validated, materialized := true }

/-- The lamp is installed, the tape can't be, and the net is not reached. -/
theorem installs_selected_start :
    leaf.compiled.installers =
      [⟨"lamp", "lamp", last.origin "Leaf"⟩, ⟨"tape", "tape", cutting.origin "Middle"⟩,
        ⟨"net", "net", cutting.origin "Middle"⟩] ∧
    (∀ layer ∈ leaf.compiled.layers, ∃ d ∈ [leaf, middle, root], d.compiled.own = layer) ∧
    (start.installCourse native).map (fun m => m.1.identity) = ["lamp", "tape"] ∧
    (install native start).1 = .error (.requirementAttribute .installing "tape" "3" installMethod
      "tape" (cutting.origin "Middle")) ∧
    (install native start).2.works = [.install "lamp"] := by
  obtain ⟨hlist, _, hblocks, hruns⟩ := hierarchy.installs_selected (c := leaf) List.mem_cons_self
  refine ⟨?_, ?_, by decide +kernel, by decide +kernel, ?_⟩
  · rw [hlist]
    decide +kernel
  · intro layer hlayer
    obtain ⟨d, hd, hown, _⟩ := hblocks layer hlayer
    exact ⟨d, hd, hown⟩
  · rw [(hruns native start rfl rfl).noted native_bounded rfl]
    decide +kernel

end Rack

end AppAssembly

import SharedPrompt.Proofs.Contributions

/-!
# Where a lens is resolved

A lens carries the id of the provider that it came from, and nothing else of it. So it is resolved by
the provider that stands under this id when it is resolved: the one that it came from, if nobody has
been registered under the id since, and otherwise whoever was registered last.
-/

namespace SharedPrompt

open Registry (standing?)

namespace Registry

variable {α : Type} {idOf : α → String}

def lastAbout? (idOf : α → String) (changes : List (Change α)) (id : String) : Option (Change α) :=
  (changes.filter (·.about idOf = id)).getLast?

/-- Who stood before some changes stands after them if none of them is about the id. -/
theorem standing?_append (past later : List (Change α)) (id : String) :
    standing? idOf (past ++ later) id =
      match lastAbout? idOf later id with
      | none => standing? idOf past id
      | some c => c.provider? := by
  rw [standing?, List.filter_append, List.getLast?_append, lastAbout?]
  cases (later.filter (·.about idOf = id)).getLast? <;> rfl

end Registry

def ServiceEvent.change? {α : Type} : ServiceEvent α → Option (Registry.Change (Provider α))
  | register p => some (.register p)
  | unregister id => some (.unregister id)
  | _ => none

namespace Service

variable {α : Type} {read : Value → Option α}

def changes (events : List (ServiceEvent α)) : List (Registry.Change (Provider α)) :=
  events.filterMap ServiceEvent.change?

theorem registry_apply (s : Service α) (e : ServiceEvent α) :
    (s.apply read e).registry = (changes [e]).foldl (Registry.apply Provider.id) s.registry := by
  cases e with
  | unregister id =>
    simp only [apply, unregister, changes, List.filterMap, ServiceEvent.change?, List.foldl,
      Registry.apply]
    cases s.registry.unregister id <;> rfl
  | _ => rfl

theorem registry_run (s : Service α) (events : List (ServiceEvent α)) :
    (s.run read events).registry = s.registry.run Provider.id (changes events) := by
  induction events generalizing s with
  | nil => rfl
  | cons e rest ih =>
    have hchanges : changes (e :: rest) = changes [e] ++ changes rest :=
      List.filterMap_append (l := [e])
    change ((s.apply read e).run read rest).registry = _
    rw [ih, registry_apply, hchanges, Registry.run, Registry.run, List.foldl_append]

/-- The registry of a service holds the providers that stand. -/
theorem get?_opened_run (worker : String) (behavior : Behavior) (options : WorkerOptions)
    (past : List (ServiceEvent α)) (id : String) :
    ((opened worker behavior options).run read past).registry.get? id =
      standing? Provider.id (changes past) id := by
  rw [registry_run]
  exact (Registry.Reflects.run Provider.id (changes past)).get id

/-! ## Where a result comes from -/

/-- The result `x` comes from the provider `p`: that is registered under the id, and has the result
when it is asked after those before it. -/
def ComesFrom (read : Value → Option α) (s : Service α) (f : ScriptFile) (id : String) (x : α)
    (p : Provider α) : Prop :=
  ∃ before after xs, s.registry.entries = before ++ (id, p) :: after ∧
    (p.provide read (ask read s.worker f before s.crew).2 s.worker f).1 = .ok xs ∧ x ∈ xs

theorem mem_ask {worker : String} {f : ScriptFile} {id : String} {x : α}
    {entries : List (String × Provider α)} {c : Crew} {found : List (String × α)}
    (hfound : (ask read worker f entries c).1 = .ok found) (h : (id, x) ∈ found) :
    ∃ before p after xs, entries = before ++ (id, p) :: after ∧
      (p.provide read (ask read worker f before c).2 worker f).1 = .ok xs ∧ x ∈ xs := by
  induction entries generalizing c found with
  | nil =>
    cases hfound
    cases h
  | cons e rest ih =>
    obtain ⟨k, p⟩ := e
    cases hp : p.panic? f with
    | some panic =>
      rw [ask_of_panic hp] at hfound
      cases hfound
    | none =>
      obtain ⟨xs, hxs⟩ := Provider.exists_ok_of_panic read hp c worker
      rw [ask_of_found hxs] at hfound
      cases hmore : (ask read worker f rest (p.provide read c worker f).2).1 with
      | error panic =>
        rw [hmore] at hfound
        cases hfound
      | ok more =>
        rw [hmore] at hfound
        cases hfound
        rcases List.mem_append.1 h with hown | hlater
        · obtain ⟨y, hy, heq⟩ := List.mem_map.1 hown
          cases heq
          exact ⟨[], p, rest, xs, rfl, hxs, hy⟩
        · obtain ⟨before, q, after, ys, rfl, hys, hx⟩ := ih hmore hlater
          refine ⟨(k, p) :: before, q, after, ys, rfl, ?_, hx⟩
          rw [ask_of_found hxs]
          exact hys

theorem exists_comesFrom {s : Service α} {f : ScriptFile} {id : String} {x : α}
    {found : List (String × α)} (hfound : (s.provide read f).1 = .ok found) (h : (id, x) ∈ found) :
    ∃ p, ComesFrom read s f id x p := by
  obtain ⟨before, p, after, xs, hentries, hxs, hx⟩ := mem_ask hfound h
  exact ⟨p, before, after, xs, hentries, hxs, hx⟩

/-- Whoever a result comes from stands under its id. -/
theorem ComesFrom.get? {s : Service α} {f : ScriptFile} {id : String} {x : α} {p : Provider α}
    (h : ComesFrom read s f id x p) (hs : s.registry.Keyed) : s.registry.get? id = some p := by
  obtain ⟨before, after, -, hentries, -⟩ := h
  have hnodup := hs.nodup
  rw [Registry.ids, hentries, List.map_append, List.map_cons, List.nodup_append] at hnodup
  have hnew : before.lookup id = none := by
    rw [List.lookup_eq_none_iff]
    intro e he
    simpa using (hnodup.2.2 e.1 (List.mem_map_of_mem he) id List.mem_cons_self).symm
  rw [Registry.get?, hentries, List.lookup_append, hnew, Option.none_or, List.lookup_cons_self]

/-! ## Resolving -/

/-- What resolving a lens of the provider `p` comes to, by the last change about its id since. -/
def resolution (id : String) (l : Lens) (g : ScriptFile) (p : Provider Lens) :
    Option (Registry.Change (Provider Lens)) → Except ProviderFault (Except Panic Lens)
  | none => .ok (p.resolveLens l g)
  | some (.register q) => .ok (q.resolveLens l g)
  | some (.unregister _) => .error (.notRegistered id)

/-- The provider `p` had the lens for the file `f` after `past`, and what becomes of the lens when it
is resolved for the file `g` after `later`. -/
structure Resolves (read : Value → Option Lens) (s : Service Lens)
    (past : List (ServiceEvent Lens)) (f : ScriptFile) (id : String) (l : Lens)
    (later : List (ServiceEvent Lens)) (g : ScriptFile) (p : Provider Lens) : Prop where
  origin : ComesFrom read (s.run read past) f id l p
  /-- The last change about the id decides who resolves the lens. -/
  resolved : (s.run read (past ++ .provide f :: later)).resolveLens id l g =
    resolution id l g p (Registry.lastAbout? Provider.id (changes later) id)
  /-- Nobody but the provider that it came from resolves it, if and only if that change is not the
  registration of another one. -/
  own : (∀ q, (s.run read (past ++ .provide f :: later)).registry.get? id = some q → q = p) ↔
    ∀ q, Registry.lastAbout? Provider.id (changes later) id = some (.register q) → q = p

/-- A lens is resolved by the provider that it came from as long as nothing is changed about its id.
After that it is resolved by whoever was registered last under the id, or refused if the id was
unregistered last. -/
theorem lens_goes_to_standing (read : Value → Option Lens) (worker : String) (behavior : Behavior)
    (options : WorkerOptions) (past : List (ServiceEvent Lens)) (f : ScriptFile) (id : String)
    (l : Lens) (found : List (String × Lens))
    (hfound : (((opened worker behavior options).run read past).provide read f).1 = .ok found)
    (hlens : (id, l) ∈ found) (later : List (ServiceEvent Lens)) (g : ScriptFile) :
    ∃ p, Resolves read (opened worker behavior options) past f id l later g p := by
  obtain ⟨p, horigin⟩ := exists_comesFrom hfound hlens
  have hstands : standing? Provider.id (changes past) id = some p :=
    (get?_opened_run worker behavior options past id).symm.trans
      (horigin.get? ((sound_opened worker behavior options).run past).keyed)
  have hget : ((opened worker behavior options).run read
      (past ++ .provide f :: later)).registry.get? id =
        match Registry.lastAbout? Provider.id (changes later) id with
        | none => some p
        | some c => c.provider? := by
    have hchanges : changes (past ++ .provide f :: later) = changes past ++ changes later :=
      List.filterMap_append
    rw [get?_opened_run, hchanges, Registry.standing?_append, hstands]
    cases Registry.lastAbout? Provider.id (changes later) id <;> rfl
  refine ⟨p, horigin, ?_, ?_⟩
  · rw [resolveLens, hget]
    cases Registry.lastAbout? Provider.id (changes later) id with
    | none => rfl
    | some c => cases c <;> rfl
  · rw [hget]
    cases Registry.lastAbout? Provider.id (changes later) id with
    | none => exact ⟨fun _ q hq => (by cases hq), fun _ q hq => (Option.some.inj hq).symm⟩
    | some c =>
      cases c with
      | register q =>
        refine ⟨fun h r hr => h r ?_, fun h r hr => h r ?_⟩
        · cases hr
          rfl
        · cases hr
          rfl
      | unregister id' => exact ⟨fun _ q hq => (by cases hq), fun _ q hq => (by cases hq)⟩

def bareLens : Lens := { span := ⟨⟨1, 0⟩, ⟨1, 4⟩⟩ }

def bareProvider : Provider Lens :=
  .native {
    id := "a"
    results := fun _ => .ok [bareLens]
    resolve := fun l f => .ok { l with data := some (.arr [.str "a", .str (f.path.text?.getD "")]) } }

/-- The provider is unregistered and registered again, while others come and go. -/
theorem lens_goes_to_standing_registeredAgain :
    let later : List (ServiceEvent Lens) := [.unregister "a", .register (.script ⟨"b", "b", "x"⟩),
      .register (.script ⟨"a", "a", "x"⟩), .register bareProvider]
    (((opened "w" [] {}).run Lens.ofValue? [.register bareProvider]).provide Lens.ofValue?
        ⟨"/a/one", "1"⟩).1 = .ok [("a", bareLens)] ∧
      (∃ p, Resolves Lens.ofValue? (opened "w" [] {}) [.register bareProvider] ⟨"/a/one", "1"⟩ "a"
        bareLens later ⟨"/a/two", "2"⟩ p) ∧
      ((opened "w" [] {}).run Lens.ofValue? ([.register bareProvider, .provide ⟨"/a/one", "1"⟩] ++
        later)).resolveLens "a" bareLens ⟨"/a/two", "2"⟩ =
          .ok (.ok { bareLens with data := some (.arr [.str "a", .str "/a/two"]) }) := by
  intro later
  have hfound : (((opened "w" [] {}).run Lens.ofValue? [.register bareProvider]).provide
      Lens.ofValue? ⟨"/a/one", "1"⟩).1 = .ok [("a", bareLens)] := rfl
  exact ⟨hfound, lens_goes_to_standing Lens.ofValue? "w" [] {} [.register bareProvider]
    ⟨"/a/one", "1"⟩ "a" bareLens _ hfound (List.mem_singleton_self _) later ⟨"/a/two", "2"⟩, rfl⟩

/-- When another provider is registered under the id of the one that a lens came from, the lens goes
to that one, which leaves it unmarked. -/
theorem replacedProvider_resolves :
    let s := (opened "w" [] {}).run Lens.ofValue? [.register bareProvider,
      .provide ⟨"/a/one", "1"⟩, .register (.script ⟨"a", "a", "x"⟩)]
    (((opened "w" [] {}).run Lens.ofValue? [.register bareProvider]).provide Lens.ofValue?
        ⟨"/a/one", "1"⟩).1 = .ok [("a", bareLens)] ∧
      s.resolveLens "a" bareLens ⟨"/a/two", "2"⟩ = .ok (.ok bareLens) ∧
      s.resolveLens "a" bareLens ⟨"/a/two", "2"⟩ ≠
        .ok (bareProvider.resolveLens bareLens ⟨"/a/two", "2"⟩) ∧
      s.resolveLens "a" bareLens ⟨"/a/two", "2"⟩ ≠ .error (.notRegistered "a") := by
  refine ⟨rfl, rfl, fun h => ?_, fun h => ?_⟩
  · have hdata : (none : Option Value) = some (.arr [.str "a", .str "/a/two"]) :=
      congrArg Lens.data (Except.ok.inj (Except.ok.inj h))
    cases hdata
  · cases h

end Service

end SharedPrompt

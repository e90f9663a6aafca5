import SharedPrompt.Feature.Service
import SharedPrompt.Proofs.RegistryHistory
import SharedPrompt.Proofs.ScriptCalls

/-!
# What providers contribute

The results of a service are put together from one contribution for each provider. A script
contributes all that it puts out, if it comes to its end and everything decodes, and otherwise
nothing; its fault is reported once and makes no difference to anybody else. Only the panic of a
provider that is no script ends the call itself, and that makes no difference to later calls.
-/

namespace SharedPrompt

/-! ## Registries -/

namespace Registry

variable {α : Type}

structure Keyed (r : Registry (Provider α)) : Prop where
  nodup : r.ids.Nodup
  ids : ∀ e ∈ r.entries, e.2.id = e.1

theorem Keyed.register {r : Registry (Provider α)} (h : r.Keyed) (p : Provider α) :
    (r.register p.id p).2.Keyed where
  nodup := by
    have hids : (r.register p.id p).2.ids = if p.id ∈ r.ids then r.ids else r.ids ++ [p.id] :=
      ids_replace ..
    rw [hids]
    split
    · exact h.nodup
    · rename_i hnew
      exact List.nodup_append.2 ⟨h.nodup, List.nodup_singleton _, fun a ha b hb hab =>
        hnew (by rwa [← List.mem_singleton.1 hb, ← hab])⟩
  ids e he := by
    obtain rfl | he := mem_replace he
    · rfl
    · exact h.ids e he

theorem Keyed.unregister {r r' : Registry (Provider α)} (h : r.Keyed) {id : String} {p : Provider α}
    (hr : r.unregister id = .ok (p, r')) : r'.Keyed := by
  unfold Registry.unregister at hr
  split at hr <;> cases hr
  have hsub : (r.entries.filter (·.1 ≠ id)).Sublist r.entries := List.filter_sublist
  exact ⟨h.nodup.sublist (hsub.map _), fun e he => h.ids e (hsub.subset he)⟩

end Registry

/-! ## One provider -/

def Notice.provider? : Notice → Option String
  | providerScriptFailed id _ _ _ | providerFailed id _ _ => some id
  | _ => none

namespace ScriptProvider

variable {α : Type} {read : Value → Option α} {f : ScriptFile} {c : Crew} {worker : String}

theorem tryInvoke_of_ok (p : ScriptProvider) {list : Work} (h : p.unitFor f = .ok list) :
    p.tryInvoke read c worker f = (results read (c.call worker list).1, (c.call worker list).2) := by
  rw [tryInvoke, h]

theorem tryInvoke_of_error (p : ScriptProvider) {fault : ProviderFault}
    (h : p.unitFor f = .error fault) : p.tryInvoke read c worker f = (.error fault, c) := by
  rw [tryInvoke, h]

end ScriptProvider

namespace Provider

variable {α : Type} (read : Value → Option α)

/-- The panic that a provider ends a call with. That of a script is no more than a fault. -/
def panic? (f : ScriptFile) : Provider α → Option Panic
  | script _ => none
  | native p => match p.results f with
    | .ok _ => none
    | .error panic => some panic

/-- What a provider has for a file, all its results or a fault. It has no answer if its script does
not come to its end, or if it panics itself. -/
def serves? (c : Crew) (worker : String) (f : ScriptFile) :
    Provider α → Option (Except ProviderFault (List α))
  | script p => (c.puts? worker p f).map (· >>= List.mapM (ScriptProvider.decode read))
  | native p => (p.results f).toOption.map .ok

theorem provide_of_panic {read : Value → Option α} {p : Provider α} {f : ScriptFile} {panic : Panic}
    (h : p.panic? f = some panic) (c : Crew) (worker : String) :
    p.provide read c worker f = (.error panic, c) := by
  cases p with
  | script p => cases h
  | native p =>
    have hresults : p.results f = .error panic := by
      cases hp : p.results f <;> simp_all [panic?]
    rw [provide, hresults]

theorem exists_ok_of_panic {p : Provider α} {f : ScriptFile} (h : p.panic? f = none) (c : Crew)
    (worker : String) : ∃ xs, (p.provide read c worker f).1 = .ok xs := by
  cases p with
  | script p => exact ⟨_, rfl⟩
  | native p =>
    cases hp : p.results f with
    | ok xs => exact ⟨xs, hp⟩
    | error panic => simp [panic?, hp] at h

/-- What is reported of what a provider has: a fault, once, after what the worker itself has to tell
of it. -/
def reports (r : Except ProviderFault (List α)) : Provider α → List Notice
  | script p => match r with
    | .ok _ => []
    | .error fault => unitNotices r ++ [p.faultNotice fault]
  | native _ => []

end Provider

/-- A fault of a provider is reported once, under its id. -/
theorem provider?_faultNotices (p : ScriptProvider) (fault : ProviderFault) {β : Type} :
    (unitNotices (.error fault : Except ProviderFault β) ++ [p.faultNotice fault]).filterMap
      Notice.provider? = [p.id] := by
  cases fault with
  | worker w => cases w <;> rfl
  | _ => rfl

def contributed {α : Type} : Except ProviderFault (List α) → List α
  | .ok xs => xs
  | .error _ => []

section Decoding

variable {α : Type} {read : Value → Option α} {vs : List Value} {xs : List α}

theorem decode_all (h : vs.map read = xs.map some) :
    vs.mapM (ScriptProvider.decode read) = .ok xs := by
  induction vs generalizing xs with
  | nil =>
    cases xs with
    | nil => rfl
    | cons x xs => cases h
  | cons v vs ih =>
    cases xs with
    | nil => cases h
    | cons x xs =>
      obtain ⟨hv, hvs⟩ := List.cons.inj h
      have hdecode : ScriptProvider.decode read v = .ok x := by
        simp only [ScriptProvider.decode, hv]
      rw [List.mapM_cons, hdecode, ih hvs]
      rfl

theorem decode_fails (h : ∃ v ∈ vs, read v = none) :
    vs.mapM (ScriptProvider.decode read) =
      .error (.script (.invalidCast "the value does not decode")) := by
  induction vs with
  | nil =>
    obtain ⟨v, hv, -⟩ := h
    cases hv
  | cons v vs ih =>
    rw [List.mapM_cons]
    cases hread : read v with
    | none =>
      simp only [ScriptProvider.decode, hread]
      rfl
    | some x =>
      have hrest : ∃ v ∈ vs, read v = none := by
        obtain ⟨u, hu, hnone⟩ := h
        obtain rfl | hu := List.mem_cons.1 hu
        · rw [hread] at hnone
          cases hnone
        · exact ⟨u, hu, hnone⟩
      rw [ih hrest]
      simp only [ScriptProvider.decode, hread]
      rfl

theorem decodes_or_not (read : Value → Option α) (vs : List Value) :
    (∃ xs : List α, vs.map read = xs.map some) ∨ ∃ v ∈ vs, read v = none := by
  induction vs with
  | nil => exact .inl ⟨[], rfl⟩
  | cons v vs ih =>
    cases hread : read v with
    | none => exact .inr ⟨v, List.mem_cons_self, hread⟩
    | some x =>
      obtain ⟨xs, hxs⟩ | ⟨u, hu, hnone⟩ := ih
      · exact .inl ⟨x :: xs, by rw [List.map_cons, List.map_cons, hread, hxs]⟩
      · exact .inr ⟨u, List.mem_cons_of_mem _ hu, hnone⟩

/-- Decoding is not done by the worker. -/
theorem unitNotices_decoded (read : Value → Option α) (r : Except ProviderFault (List Value)) :
    unitNotices (r >>= List.mapM (ScriptProvider.decode read)) = unitNotices r := by
  cases r with
  | error fault =>
    cases fault with
    | worker w => cases w <;> rfl
    | _ => rfl
  | ok vs =>
    change unitNotices (vs.mapM (ScriptProvider.decode read)) = []
    obtain ⟨xs, hxs⟩ | hfails := decodes_or_not read vs
    · rw [decode_all hxs]
      rfl
    · rw [decode_fails hfails]
      rfl

end Decoding

namespace Crew

variable {α : Type} {read : Value → Option α} {c d : Crew} {worker : String}

/-- The crew is at rest again, and every provider has for every file what it had. -/
structure Undisturbed (read : Value → Option α) (worker : String) (c d : Crew) : Prop where
  ready : d.Ready worker
  serves (p : Provider α) (f : ScriptFile) : p.serves? read d worker f = p.serves? read c worker f

theorem Ready.provide (h : c.Ready worker) (f : ScriptFile) (p : Provider α) :
    (p.provide read c worker f).2.Ready worker := by
  cases p with
  | native p => exact h
  | script p =>
    have htried : (p.tryInvoke read c worker f).2.Ready worker := by
      cases hunit : p.unitFor f with
      | error fault => rwa [p.tryInvoke_of_error hunit]
      | ok list =>
        rw [p.tryInvoke_of_ok hunit]
        exact h.call list
    rw [Provider.provide, ScriptProvider.invoke]
    generalize p.tryInvoke read c worker f = tried at htried
    obtain ⟨r, d⟩ := tried
    cases r with
    | ok xs => exact htried
    | error fault => exact htried.notice _

theorem Undisturbed.of_puts (hready : d.Ready worker)
    (hsame : ∀ (q : ScriptProvider) g, d.puts? worker q g = c.puts? worker q g) :
    c.Undisturbed read worker d where
  ready := hready
  serves q g := by
    cases q with
    | native q => rfl
    | script q => rw [Provider.serves?, Provider.serves?, hsame]

/-- A script that has an answer, before its fault is reported. -/
theorem Ready.tryInvoke_eq (h : c.Ready worker) (read : Value → Option α) (f : ScriptFile)
    (p : ScriptProvider) {put : Except ProviderFault (List Value)}
    (hputs : c.puts? worker p f = some put) :
    ∃ d, p.tryInvoke read c worker f = (put >>= List.mapM (ScriptProvider.decode read), d) ∧
      c.Undisturbed read worker d ∧ d.trace.notices = c.trace.notices ++ unitNotices put := by
  rw [puts?] at hputs
  obtain ⟨editor, hvalue, -⟩ | hvalue := f.value_cases
  · rw [hvalue] at hputs
    have hunit : p.unitFor f = .ok [.script editor p.script] := by
      rw [ScriptProvider.unitFor, hvalue]
      rfl
    obtain ⟨wr, d, hcall, rfl, hready, hsame, hnotices⟩ := h.call_script hputs
    refine ⟨d, ?_, .of_puts hready hsame, hnotices⟩
    rw [p.tryInvoke_of_ok hunit, hcall]
    rfl
  · rw [hvalue] at hputs
    cases hputs
    have hunit : p.unitFor f = .error FilePath.fault := by
      rw [ScriptProvider.unitFor, hvalue]
      rfl
    exact ⟨c, p.tryInvoke_of_error hunit, .of_puts h fun _ _ => rfl, (List.append_nil _).symm⟩

/-- The results of a provider that has an answer. -/
theorem Ready.provide_eq (h : c.Ready worker) (f : ScriptFile) (p : Provider α)
    {r : Except ProviderFault (List α)} (hserves : p.serves? read c worker f = some r) :
    (p.provide read c worker f).1 = .ok (contributed r) ∧
      c.Undisturbed read worker (p.provide read c worker f).2 ∧
      (p.provide read c worker f).2.trace.notices = c.trace.notices ++ p.reports r := by
  cases p with
  | native p =>
    obtain ⟨xs, hxs, rfl⟩ := Option.map_eq_some_iff.1 hserves
    have hresults : p.results f = .ok xs := by
      cases hp : p.results f <;> rw [hp] at hxs <;> cases hxs
      rfl
    exact ⟨hresults, .of_puts h fun _ _ => rfl, (List.append_nil _).symm⟩
  | script p =>
    obtain ⟨put, hputs, rfl⟩ := Option.map_eq_some_iff.1 hserves
    obtain ⟨d, htry, hthere, hnotices⟩ := h.tryInvoke_eq read f p hputs
    have hunit := unitNotices_decoded read put
    rw [Provider.provide, ScriptProvider.invoke, htry]
    generalize put >>= List.mapM (ScriptProvider.decode read) = r at hunit
    rw [← hunit] at hnotices
    cases r with
    | ok xs => exact ⟨rfl, hthere, hnotices⟩
    | error fault =>
      refine ⟨rfl, ⟨hthere.ready.notice _, hthere.serves⟩, ?_⟩
      change d.trace.notices ++ [p.faultNotice fault] = _
      rw [hnotices, List.append_assoc]
      rfl

end Crew

/-! ## Services -/

inductive ServiceEvent (α : Type) where
  | register (p : Provider α)
  | unregister (id : String)
  | provide (f : ScriptFile)
  /-- What others do with the worker, until it has come to rest. -/
  | others (events : List CrewEvent)

namespace Service

variable {α : Type} (read : Value → Option α)

def opened (worker : String) (behavior : Behavior) (options : WorkerOptions) : Service α :=
  { worker, crew := ({} : Crew).start worker behavior options }

def apply (s : Service α) : ServiceEvent α → Service α
  | .register p => (s.register p).2
  | .unregister id =>
    match s.unregister id with
    | .ok (_, s) => s
    | .error _ => s
  | .provide f => (s.provide read f).2
  | .others events => { s with crew := (s.crew.run events).settle Crew.patience }

def run (s : Service α) (events : List (ServiceEvent α)) : Service α := events.foldl (apply read) s

def serves? (s : Service α) (f : ScriptFile) (p : Provider α) :
    Option (Except ProviderFault (List α)) := p.serves? read s.crew s.worker f

def contribution (s : Service α) (f : ScriptFile) (p : Provider α) : List α :=
  (s.serves? read f p).elim [] contributed

def reported (s : Service α) (f : ScriptFile) (p : Provider α) : List Notice :=
  (s.serves? read f p).elim [] p.reports

/-- The providers that are asked for a file and do not panic: those before the first one that does. -/
def asked (f : ScriptFile) (entries : List (String × Provider α)) : List (String × Provider α) :=
  entries.takeWhile fun e => (e.2.panic? f).isNone

def panic? (f : ScriptFile) (entries : List (String × Provider α)) : Option Panic :=
  entries.findSome? (·.2.panic? f)

def Returns (s : Service α) (f : ScriptFile) : Prop :=
  ∀ e ∈ asked f s.registry.entries, (s.serves? read f e.2).isSome = true

/-- Every call in a history comes to an end, and nobody else uses the worker. -/
def Returning (s : Service α) : List (ServiceEvent α) → Prop
  | [] => True
  | .others _ :: _ => False
  | .provide f :: rest => s.Returns read f ∧ (s.apply read (.provide f)).Returning rest
  | .register p :: rest => (s.apply read (.register p)).Returning rest
  | .unregister id :: rest => (s.apply read (.unregister id)).Returning rest

variable {read} {c d : Crew} {worker : String}

section Ask

variable {f : ScriptFile} {id : String} {p : Provider α} {rest : List (String × Provider α)}

theorem ask_of_panic {panic : Panic} (h : p.panic? f = some panic) :
    ask read worker f ((id, p) :: rest) c = (.error panic, c) := by
  simp only [ask, Provider.provide_of_panic h]

theorem ask_of_found {xs : List α} (h : (p.provide read c worker f).1 = .ok xs) :
    ask read worker f ((id, p) :: rest) c =
      ((ask read worker f rest (p.provide read c worker f).2).1.map (xs.map (id, ·) ++ ·),
        (ask read worker f rest (p.provide read c worker f).2).2) := by
  have hprovide : p.provide read c worker f = (.ok xs, (p.provide read c worker f).2) :=
    Prod.ext h rfl
  rw [ask, hprovide]

theorem ready_ask (h : c.Ready worker) (f : ScriptFile) (entries : List (String × Provider α)) :
    (ask read worker f entries c).2.Ready worker := by
  induction entries generalizing c with
  | nil => exact h
  | cons e rest ih =>
    obtain ⟨id, p⟩ := e
    cases hp : p.panic? f with
    | some panic =>
      rw [ask_of_panic hp]
      exact h
    | none =>
      obtain ⟨xs, hxs⟩ := Provider.exists_ok_of_panic read hp c worker
      rw [ask_of_found hxs]
      exact ih (h.provide f p)

/-- A list of providers is asked, each of which has an answer or panics. -/
theorem ask_eq (h : c.Ready worker) (f : ScriptFile) (entries : List (String × Provider α))
    (hserves : ∀ e ∈ asked f entries, (e.2.serves? read c worker f).isSome = true) :
    (ask read worker f entries c).1 = (panic? f entries).elim
        (.ok (entries.flatMap fun e =>
          ((e.2.serves? read c worker f).elim [] contributed).map (e.1, ·))) .error ∧
      c.Undisturbed read worker (ask read worker f entries c).2 ∧
      (ask read worker f entries c).2.trace.notices = c.trace.notices ++
        (asked f entries).flatMap fun e => (e.2.serves? read c worker f).elim [] e.2.reports := by
  induction entries generalizing c with
  | nil => exact ⟨rfl, ⟨h, fun _ _ => rfl⟩, (List.append_nil _).symm⟩
  | cons e rest ih =>
    obtain ⟨id, p⟩ := e
    cases hp : p.panic? f with
    | some panic =>
      have hnobody : asked f ((id, p) :: rest) = [] := by simp [asked, hp]
      have hpanics : panic? f ((id, p) :: rest) = some panic := by simp [panic?, hp]
      rw [ask_of_panic hp, hnobody, hpanics]
      exact ⟨rfl, ⟨h, fun _ _ => rfl⟩, (List.append_nil _).symm⟩
    | none =>
      have hasked : asked f ((id, p) :: rest) = (id, p) :: asked f rest := by simp [asked, hp]
      have hpanics : panic? f ((id, p) :: rest) = panic? f rest := by simp [panic?, hp]
      rw [hasked] at hserves ⊢
      obtain ⟨hserve, hrest⟩ := List.forall_mem_cons.1 hserves
      obtain ⟨r, hr⟩ := Option.isSome_iff_exists.1 hserve
      obtain ⟨hfound, hthere, hnotices⟩ := h.provide_eq f p hr
      have hrest : ∀ e ∈ asked f rest,
          (e.2.serves? read (p.provide read c worker f).2 worker f).isSome = true := fun e he => by
        rw [hthere.serves]
        exact hrest e he
      obtain ⟨hmore, hthen, hthereafter⟩ := ih hthere.ready hrest
      simp only [hthere.serves] at hmore hthereafter
      rw [ask_of_found hfound, hpanics]
      refine ⟨?_, ⟨hthen.ready, fun q g => (hthen.serves q g).trans (hthere.serves q g)⟩, ?_⟩
      · rw [hmore, List.flatMap_cons, hr, Option.elim_some]
        cases panic? f rest <;> rfl
      · rw [hthereafter, hnotices, List.flatMap_cons, hr, Option.elim_some, List.append_assoc]

end Ask

structure Sound (s : Service α) : Prop where
  ready : s.crew.Ready s.worker
  keyed : s.registry.Keyed

theorem Sound.apply {s : Service α} (h : s.Sound) (e : ServiceEvent α) :
    (s.apply read e).Sound := by
  cases e with
  | register p => exact ⟨h.ready, h.keyed.register p⟩
  | unregister id =>
    cases hr : s.registry.unregister id with
    | error fault =>
      have hsame : s.apply read (.unregister id) = s := by
        simp only [Service.apply, Service.unregister, hr]
        rfl
      rwa [hsame]
    | ok found =>
      obtain ⟨p, registry⟩ := found
      have hafter : s.apply read (.unregister id) = { s with registry } := by
        simp only [Service.apply, Service.unregister, hr]
        rfl
      rw [hafter]
      exact ⟨h.ready, h.keyed.unregister hr⟩
  | provide f => exact ⟨ready_ask h.ready f _, h.keyed⟩
  | others events =>
    refine ⟨⟨?_, ?_, Crew.rests_settle _⟩, h.keyed⟩
    · change ((s.crew.run events).settle Crew.patience).names = [s.worker]
      rw [(Crew.steps_settle _).names, Crew.names_run, h.ready.names]
    · exact (h.ready.fit.run events).steps (Crew.steps_settle _)

theorem sound_opened (worker : String) (behavior : Behavior) (options : WorkerOptions) :
    (opened worker behavior options : Service α).Sound where
  ready := by
    refine ⟨rfl, fun w hw => ?_, ?_⟩
    · obtain rfl := List.mem_singleton.1 hw
      exact ⟨rfl, (fun t ht => by cases ht), fun hbusy => absurd rfl hbusy⟩
    · exact Crew.next?_idle ⟨rfl, rfl, rfl, rfl⟩
  keyed := ⟨List.nodup_nil, fun e he => by cases he⟩

theorem Sound.run {s : Service α} (h : s.Sound) (events : List (ServiceEvent α)) :
    (s.run read events).Sound := by
  induction events generalizing s with
  | nil => exact h
  | cons e rest ih => exact ih (h.apply e)

/-! ## Services that have the same to offer -/

variable {s t : Service α} {f : ScriptFile}

/-- What a call comes to: the panic of a provider, or all contributions. -/
theorem Sound.provide_fst (h : s.Sound) (hreturns : s.Returns read f) :
    (s.provide read f).1 = (panic? f s.registry.entries).elim
      (.ok (s.registry.entries.flatMap fun e => (s.contribution read f e.2).map (e.1, ·))) .error :=
  (ask_eq h.ready f s.registry.entries hreturns).1

/-- The same providers are registered, and each of them has the same for every file. -/
structure Alike (read : Value → Option α) (s t : Service α) : Prop where
  registry : t.registry = s.registry
  serves (f : ScriptFile) (p : Provider α) : t.serves? read f p = s.serves? read f p

theorem Sound.alike_provide (h : s.Sound) (hreturns : s.Returns read f) :
    s.Alike read (s.provide read f).2 where
  registry := rfl
  serves g p := (ask_eq h.ready f s.registry.entries hreturns).2.1.serves p g

theorem Alike.returns (h : s.Alike read t) (hreturns : s.Returns read f) : t.Returns read f := by
  intro e he
  rw [h.registry] at he
  rw [h.serves]
  exact hreturns e he

theorem Alike.provide_fst (h : s.Alike read t) (hs : s.Sound) (ht : t.Sound)
    (hreturns : s.Returns read f) : (t.provide read f).1 = (s.provide read f).1 := by
  rw [hs.provide_fst hreturns, ht.provide_fst (h.returns hreturns), h.registry]
  simp only [contribution, h.serves]

theorem Alike.provide (h : s.Alike read t) (hs : s.Sound) (ht : t.Sound)
    (hreturns : s.Returns read f) : (s.provide read f).2.Alike read (t.provide read f).2 := by
  have hs' := hs.alike_provide hreturns
  have ht' := ht.alike_provide (h.returns hreturns)
  refine ⟨h.registry, fun g p => ?_⟩
  rw [ht'.serves, h.serves, hs'.serves]

theorem Alike.register (h : s.Alike read t) (p : Provider α) :
    (s.apply read (.register p)).Alike read (t.apply read (.register p)) where
  registry := by
    change (t.registry.register p.id p).2 = (s.registry.register p.id p).2
    rw [h.registry]
  serves := h.serves

theorem Alike.unregister (h : s.Alike read t) (id : String) :
    (s.apply read (.unregister id)).Alike read (t.apply read (.unregister id)) := by
  simp only [Service.apply, Service.unregister, h.registry]
  cases s.registry.unregister id with
  | error fault => exact h
  | ok found => exact ⟨rfl, h.serves⟩

/-- Services that have the same to offer stay so, whatever they are asked. -/
theorem Alike.run (h : s.Alike read t) (hs : s.Sound) (ht : t.Sound)
    (events : List (ServiceEvent α)) (hreturning : s.Returning read events) :
    (s.run read events).Alike read (t.run read events) := by
  induction events generalizing s t with
  | nil => exact h
  | cons e rest ih =>
    cases e with
    | others events => exact hreturning.elim
    | provide f =>
      obtain ⟨hreturns, hrest⟩ := hreturning
      exact ih (h.provide hs ht hreturns) (hs.apply _) (ht.apply _) hrest
    | register p => exact ih (h.register p) (hs.apply _) (ht.apply _) hreturning
    | unregister id => exact ih (h.unregister id) (hs.apply _) (ht.apply _) hreturning

/-! ## A call -/

structure Provides (read : Value → Option α) (s : Service α) (f : ScriptFile) : Prop where
  /-- The contributions of the providers in the order of the registry, with their ids, or the first
  panic of a provider that is no script. -/
  found : (s.provide read f).1 = (panic? f s.registry.entries).elim
    (.ok (s.registry.entries.flatMap fun e => (s.contribution read f e.2).map (e.1, ·))) .error
  /-- Each registered provider contributes once, under its id. -/
  keyed : s.registry.Keyed
  /-- A script contributes all that it puts out, in this order, if all of it decodes. -/
  decoded : ∀ p vs xs, s.crew.puts? s.worker p f = some (.ok vs) → vs.map read = xs.map some →
    s.contribution read f (.script p) = xs ∧ s.reported read f (.script p) = []
  /-- It contributes nothing if one value does not decode. -/
  undecoded : ∀ p vs, s.crew.puts? s.worker p f = some (.ok vs) → (∃ v ∈ vs, read v = none) →
    s.contribution read f (.script p) = [] ∧
      (s.reported read f (.script p)).filterMap Notice.provider? = [p.id]
  /-- It contributes nothing if it puts nothing out, whatever the fault is. -/
  failed : ∀ p fault, s.crew.puts? s.worker p f = some (.error fault) →
    s.contribution read f (.script p) = [] ∧
      (s.reported read f (.script p)).filterMap Notice.provider? = [p.id]
  /-- That is so of every script if the path of the file is no text. -/
  unencoded : f.path.text? = none → ∀ p, s.contribution read f (.script p) = [] ∧
    s.reported read f (.script p) = [p.faultNotice FilePath.fault]
  /-- Otherwise a script has the file on show. -/
  encoded : f.path.text?.isSome = true → ∀ p : ScriptProvider, ∃ editor, f.ShownBy editor ∧
    s.crew.puts? s.worker p f = s.crew.scriptPuts? s.worker editor p.script
  native : ∀ (p : NativeProvider α) xs, p.results f = .ok xs →
    s.contribution read f (.native p) = xs ∧ s.reported read f (.native p) = []
  /-- Nothing else is told. -/
  reported : (s.provide read f).2.crew.trace.notices = s.crew.trace.notices ++
    (asked f s.registry.entries).flatMap fun e => s.reported read f e.2
  /-- Nothing has changed for any provider, registered or not. -/
  undisturbed : s.Alike read (s.provide read f).2
  /-- Any later call has the results that it would have without this one. -/
  later : ∀ events g, s.Returning read events → (s.run read events).Returns read g →
    (((s.provide read f).2.run read events).provide read g).1 =
      ((s.run read events).provide read g).1

section Contribution

variable {p : ScriptProvider} {vs : List Value} {xs : List α} {fault : ProviderFault}

theorem serves?_of_puts (h : s.crew.puts? s.worker p f = some (.ok vs)) :
    s.serves? read f (.script p) = some (vs.mapM (ScriptProvider.decode read)) := by
  rw [serves?, Provider.serves?, h]
  rfl

theorem serves?_of_fault (h : s.crew.puts? s.worker p f = some (.error fault)) :
    s.serves? read f (.script p) = some (.error fault) := by
  rw [serves?, Provider.serves?, h]
  rfl

/-- A fault costs all results of its provider, and is reported once. -/
theorem lost_of_fault (h : s.serves? read f (.script p) = some (.error fault)) :
    s.contribution read f (.script p) = [] ∧
      (s.reported read f (.script p)).filterMap Notice.provider? = [p.id] := by
  rw [contribution, reported, h]
  exact ⟨rfl, provider?_faultNotices p fault⟩

end Contribution

theorem Sound.provides (h : s.Sound) (hreturns : s.Returns read f) : Provides read s f := by
  have halike := h.alike_provide hreturns
  exact {
    found := h.provide_fst hreturns
    keyed := h.keyed
    decoded := fun p vs xs hputs hread => by
      rw [contribution, reported, serves?_of_puts hputs, decode_all hread]
      exact ⟨rfl, rfl⟩
    undecoded := fun p vs hputs hfails =>
      lost_of_fault ((serves?_of_puts hputs).trans (congrArg some (decode_fails hfails)))
    failed := fun p fault hputs => lost_of_fault (serves?_of_fault hputs)
    unencoded := fun hpath p => by
      have hvalue := ScriptFile.value_eq_error hpath
      have hputs : s.crew.puts? s.worker p f = some (.error FilePath.fault) := by
        rw [Crew.puts?, hvalue]
      rw [contribution, reported, serves?_of_fault hputs]
      exact ⟨rfl, rfl⟩
    encoded := fun hpath p => by
      obtain ⟨editor, hvalue, hshown⟩ := ScriptFile.exists_value hpath
      exact ⟨editor, hshown, by rw [Crew.puts?, hvalue]⟩
    native := fun p xs hresults => by
      have hserves : s.serves? read f (.native p) = some (.ok xs) := by
        rw [serves?, Provider.serves?, hresults]
        rfl
      rw [contribution, reported, hserves]
      exact ⟨rfl, rfl⟩
    reported := (ask_eq h.ready f s.registry.entries hreturns).2.2
    undisturbed := halike
    later := fun events g hreturning hreturns =>
      (halike.run h (h.apply (.provide f)) events hreturning).provide_fst (h.run events)
        ((h.apply (.provide f)).run events) hreturns }

def ownText : NativeProvider String where
  id := "own"
  results f := if f.contents = "" then .error .other else .ok [f.contents]

/-- Six providers, three of which are faulty, and calls before with the engine in order and not, for a
file without text and for one whose path is no text. -/
def threeFaulty : List (ServiceEvent String) :=
  [.register (.script ⟨"fine", "fine", "texts"⟩), .register (.script ⟨"fails", "fails", "fails"⟩),
    .register (.native ownText), .register (.script ⟨"panics", "panics", "panics"⟩),
    .register (.script ⟨"odd", "odd", "odd"⟩), .register (.script ⟨"last", "last", "texts"⟩),
    .provide ⟨"/a/one", "1"⟩, .provide ⟨"/a/empty", ""⟩, .provide ⟨⟨[0xff]⟩, "1"⟩,
    .others [.failing "w" .pipeline true], .provide ⟨"/a/two", "2"⟩,
    .others [.failing "w" .pipeline false]]

end Service

end SharedPrompt

import Hx.Engagement.Load
import Hx.Identity.Bound

/-!
# What is written loads again

Every reader takes what the writer wrote back to the field it was written from: a key that is
left out to nothing, an empty list to an empty list, a name of an identity to itself. Loading
raises something else than a `ConfigError` in one place only, where the names of the identities
are sorted for a message.
-/

namespace Hx.Engagement

open Hx.Library Hx.Identity

/-! ## Keys -/

section Keys

variable {key other : String} {d e : Dict} {v : Value}

theorem lookup_cons (s : Scalar) (v : Value) (d : Dict) (key : String) :
    lookup ((s, v) :: d) key = if s = .str (text key) then some v else lookup d key := by
  rw [lookup, List.find?_cons]
  by_cases same : s = .str (text key)
  · rw [if_pos same]
    simp [same]
  · rw [if_neg same]
    simp [same, lookup]

theorem lookup_append (d e : Dict) (key : String) :
    lookup (d ++ e) key = (lookup d key).or (lookup e key) := by
  induction d with
  | nil => rfl
  | cons entry d ih =>
      rw [List.cons_append, lookup_cons, lookup_cons, ih]
      split <;> rfl

theorem lookup_keyed_self (key : String) (v : Option Value) : lookup (keyed key v) key = v := by
  cases v with
  | none => rfl
  | some v => exact (lookup_cons _ _ _ _).trans (if_pos rfl)

theorem lookup_keyed_other (v : Option Value) (differ : text key ≠ text other) :
    lookup (keyed key v) other = none := by
  cases v with
  | none => rfl
  | some v =>
      refine (lookup_cons _ _ _ _).trans (if_neg ?_)
      intro same
      exact differ (Scalar.str.inj same)

end Keys

section Readers

variable {τ : Type} (R : Runtime τ) {d : Dict} {key : String}

theorem strings_texts (texts : List Text) : strings (texts.map textValue) = some texts := by
  induction texts with
  | nil => rfl
  | cons s texts ih => rw [List.map_cons, textValue, strings, ih]; rfl

theorem checkEntries_nonBlank (key : String) (items : List NonBlank) (i : ℕ) :
    checkEntries key i (items.map (·.1)) = .ok items := by
  induction items generalizing i with
  | nil => rfl
  | cons x items ih => rw [List.map_cons, checkEntries, dif_pos x.2, ih]; rfl

theorem stringList_ok {items : List NonBlank} (there : get d key = listValue items)
    (default_ : List NonBlank) : stringList R d key default_ = .ok items := by
  have texts : items.map (fun s => textValue s.1) = (items.map (·.1)).map textValue := by
    rw [List.map_map]
    rfl
  rw [stringList, there, listValue, texts]
  dsimp only
  rw [strings_texts]
  exact checkEntries_nonBlank key items 0

theorem positiveInt_ok {n : Positive} (there : lookup d key = some (intValue n))
    (default_ : Positive) : positiveInt R d key default_ = .ok n := by
  rw [positiveInt, there]
  exact dif_pos n.2

theorem required_ok {s : NonBlank} (there : get d key = textValue s.1) :
    required R d key = .ok s := by
  rw [required, there]
  exact dif_pos s.2

theorem mapping_ok {items : Dict} (there : get d key = .dict items) :
    mapping R d key = .ok items := by
  rw [mapping, there]

theorem optional_ok (s : Option NonBlank) (refusal : String) :
    optional ((s.map fun s => textValue s.1).getD (.scalar .null)) refusal = .ok s := by
  cases s with
  | none => rfl
  | some s => exact dif_pos s.2

end Readers

/-! ## Identities -/

section Identities

variable {τ : Type} (R : Runtime τ) (name : Scalar)

theorem strategyOf_text (s : Strategy) : strategyOf (textValue (text s.text)) = some s := by
  cases s <;> decide

theorem headerOf_text (h : Header) : headerOf (textValue (text h.text)) = some h := by
  cases h <;> rfl

def livenessYaml (l : Liveness) : Dict :=
  [(str "path", textValue l.path), (str "expect_body", textValue l.expectBody.1),
    (str "every_n_probes", intValue l.everyNProbes)] ++
  keyed "expect_absent" (l.expectAbsent.map fun s => textValue s.1)

theorem liveness_ok {raw : Dict} {l : Liveness}
    (there : get raw "liveness" = .dict (livenessYaml l)) : liveness R name raw = .ok l := by
  have body : get (livenessYaml l) "expect_body" =
      ((some l.expectBody).map fun s => textValue s.1).getD (.scalar .null) := rfl
  have path : get (livenessYaml l) "path" = textValue l.path := rfl
  have every : lookup (livenessYaml l) "every_n_probes" = some (intValue l.everyNProbes) := rfl
  have absent : get (livenessYaml l) "expect_absent" =
      (l.expectAbsent.map fun s => textValue s.1).getD (.scalar .null) := by
    rw [get, livenessYaml, lookup_append, lookup_keyed_self]
    rfl
  have some_ : livenessYaml l ≠ [] := List.cons_ne_nil _ _
  rw [liveness, mapping_ok R there]
  simp only [bind, Except.bind]
  rw [if_neg some_, body, optional_ok]
  dsimp only
  rw [path, textValue]
  dsimp only
  rw [dif_pos l.rooted, absent, optional_ok]
  dsimp only
  rw [positiveInt_ok R every]
  rfl

theorem refreshOf_ok (r : Refresh) :
    refreshOf R name [(str "command", .list (r.command.map textValue)),
      (str "value_from", textValue (text "stdout"))] = .ok r := by
  have command : get [(str "command", .list (r.command.map textValue)),
      (str "value_from", textValue (text "stdout"))] "command" =
        .list (r.command.map textValue) := rfl
  have source : lookup [(str "command", .list (r.command.map textValue)),
      (str "value_from", textValue (text "stdout"))] "value_from" =
        some (textValue (text "stdout")) := rfl
  have some_ : r.command.map textValue ≠ [] := fun empty => r.some_ (List.map_eq_nil_iff.1 empty)
  rw [refreshOf, command]
  dsimp only
  rw [if_neg some_, strings_texts]
  dsimp only
  rw [dif_pos r.some_, source, Option.getD_some, textValue]
  dsimp only
  rw [if_pos rfl]

theorem originOf_ok (o : Origin R.lowering) : originOf R name (textValue o.text) = .ok o := by
  have some_ : strip o.text ≠ [] := by
    rw [o.stripped]
    exact o.some_
  have host : originHost R.lowering o.text ≠ [] ∧
      (originHost R.lowering o.text).all isOriginHostChar = true := o.host
  rw [textValue, originOf, dif_pos some_, dif_pos host]
  have same : ∀ p : Origin R.lowering, p.text = o.text → Except.ok p = (.ok o : Load _) := by
    rintro ⟨t, -, -, -⟩ rfl
    rfl
  exact same _ o.stripped

theorem mapM_originOf (os : List (Origin R.lowering)) :
    (os.map fun o => textValue o.text).mapM (originOf R name) = .ok os := by
  induction os with
  | nil => rfl
  | cons o os ih =>
      rw [List.map_cons, List.mapM_cons, originOf_ok, ih]
      rfl

theorem originsOf_ok {raw : Dict} {os : List (Origin R.lowering)}
    (there : lookup raw "origins" = if os = [] then none
      else some (.list (os.map fun o => textValue o.text))) : originsOf R name raw = .ok os := by
  rw [originsOf, there]
  cases os with
  | nil => rfl
  | cons o os =>
      rw [if_neg (List.cons_ne_nil _ _)]
      exact mapM_originOf R name (o :: os)

def injectYaml (i : Identity R.lowering) : Dict :=
  (str "header", textValue (text i.header.text)) ::
    keyed "value_from_env" (i.valueFromEnv.map fun s => textValue s.1)

def refreshYaml (r : Refresh) : Value :=
  .dict [(str "command", .list (r.command.map textValue)),
    (str "value_from", textValue (text "stdout"))]

/-- The mapping an identity is written as. -/
def identityDict (i : Identity R.lowering) : Dict :=
  [(str "strategy", textValue (text i.strategy.text)), (str "inject", .dict (injectYaml R i)),
    (str "liveness", .dict (livenessYaml i.liveness))] ++
  keyed "refresh" (i.refresh.map refreshYaml) ++
  keyed "origins" (if i.origins = [] then none
    else some (.list (i.origins.map fun o => textValue o.text)))

theorem identityYaml_eq (i : Identity R.lowering) : identityYaml i = .dict (identityDict R i) := rfl

theorem identity_ok (i : Identity R.lowering) : identity R i.id (identityYaml i) = .ok i := by
  have strategy : get (identityDict R i) "strategy" = textValue (text i.strategy.text) := rfl
  have inject : get (identityDict R i) "inject" = .dict (injectYaml R i) := rfl
  have header : get (injectYaml R i) "header" = textValue (text i.header.text) := rfl
  have env : get (injectYaml R i) "value_from_env" =
      (i.valueFromEnv.map fun s => textValue s.1).getD (.scalar .null) := by
    have cut : injectYaml R i = [(str "header", textValue (text i.header.text))] ++
        keyed "value_from_env" (i.valueFromEnv.map fun s => textValue s.1) := rfl
    rw [get, cut, lookup_append, lookup_keyed_self]
    rfl
  have live : get (identityDict R i) "liveness" = .dict (livenessYaml i.liveness) := rfl
  have refresh : lookup (identityDict R i) "refresh" = i.refresh.map refreshYaml := by
    rw [identityDict, lookup_append, lookup_append, lookup_keyed_self,
      lookup_keyed_other _ (by decide : text "origins" ≠ text "refresh"), Option.or_none]
    rfl
  have origins : lookup (identityDict R i) "origins" = if i.origins = [] then none
      else some (.list (i.origins.map fun o => textValue o.text)) := by
    rw [identityDict, lookup_append, lookup_append, lookup_keyed_self,
      lookup_keyed_other _ (by decide : text "refresh" ≠ text "origins"), Option.or_none]
    rfl
  have mapped : mapping R (identityDict R i) "refresh" = .ok (match i.refresh with
      | none => []
      | some r => [(str "command", .list (r.command.map textValue)),
          (str "value_from", textValue (text "stdout"))]) := by
    rw [mapping, get, refresh]
    cases i.refresh <;> rfl
  rw [identityYaml_eq, identity]
  rw [strategy, strategyOf_text]
  dsimp only
  rw [mapping_ok R inject]
  simp only [bind, Except.bind]
  rw [header, headerOf_text]
  dsimp only
  rw [env, optional_ok]
  dsimp only
  rw [dif_pos i.named, liveness_ok R i.id live]
  dsimp only
  rw [mapped]
  dsimp only
  have places := originsOf_ok R i.id origins
  rcases i with ⟨id, kind, name, variable_, proof, renewal, hosts, named, renewed⟩
  cases kind with
  | static =>
      cases renewal with
      | none =>
          dsimp only at places ⊢
          rw [places]
          rfl
      | some r => exact absurd (renewed.1 rfl) (by decide)
  | programmatic =>
      cases renewal with
      | none => exact absurd (renewed.2 rfl) (by decide)
      | some r =>
          dsimp only at places ⊢
          rw [refreshOf_ok]
          dsimp only
          rw [places]
          rfl

theorem mapM_identity (is : List (Identity R.lowering)) :
    (is.map fun i => (i.id, identityYaml i)).mapM (fun entry => identity R entry.1 entry.2) =
      .ok is := by
  induction is with
  | nil => rfl
  | cons i is ih =>
      rw [List.map_cons, List.mapM_cons, identity_ok, ih]
      rfl

end Identities

/-! ## The whole -/

section Whole

variable {τ : Type} (R : Runtime τ) (c : Config R.lowering)

theorem profile_ok : profile R (dumped c) = .ok c.safetyProfile := by
  have written : lookup (dumped c) "safety_profile" =
      some (textValue (text c.safetyProfile.text)) := rfl
  rw [profile, written]
  cases c.safetyProfile with
  | production => rfl
  | staging => rfl

theorem checks_ok (checks : Checks) :
    ∃ items, checksYaml checks = .dict items ∧ items.foldlM (setCheck R) {} = .ok checks :=
  ⟨_, rfl, rfl⟩

theorem front_ok : front R (dumped c) =
    .ok ⟨c.name, c.client, c.safetyProfile, c.scopeInclude, c.checks, c.identities,
      c.included⟩ := by
  have name : get (dumped c) "name" = textValue c.name.1 := rfl
  have client : get (dumped c) "client" = textValue c.client.1 := rfl
  have scope : get (dumped c) "scope" = .dict [(str "include", listValue c.scopeInclude),
    (str "exclude", listValue c.scopeExclude)] := rfl
  have include_ : get [(str "include", listValue c.scopeInclude),
    (str "exclude", listValue c.scopeExclude)] "include" = listValue c.scopeInclude := rfl
  have checks : get (dumped c) "checks" = checksYaml c.checks := rfl
  have identities : get (dumped c) "identities" =
    .dict (c.identities.map fun i => (i.id, identityYaml i)) := rfl
  obtain ⟨items, written, read⟩ := checks_ok R c.checks
  rw [front, required_ok R name, required_ok R client, profile_ok, mapping_ok R scope]
  simp only [bind, Except.bind]
  rw [stringList_ok R include_]
  dsimp only
  rw [dif_pos c.included, mapping_ok R (checks.trans written)]
  dsimp only
  rw [read]
  dsimp only
  rw [mapping_ok R identities]
  dsimp only
  rw [mapM_identity]
  rfl

theorem scanIdentity_ok : ∃ declared, scanIdentity R (dumped c) (c.identities.map Identity.id) =
    .ok ⟨c.scanIdentity, declared⟩ := by
  have written : get (dumped c) "scan_identity" =
      (c.scanIdentity.map textValue).getD (.scalar .null) := rfl
  have known := c.declared
  rw [scanIdentity, written]
  cases same : c.scanIdentity with
  | none => exact ⟨_, rfl⟩
  | some s => exact ⟨_, dif_pos (known s same)⟩

theorem rateBurst_ok : rateBurst R (dumped c) = .ok c.rateBurst := by
  have written : lookup (dumped c) "rate_burst" =
      some ((c.rateBurst.map intValue).getD (.scalar .null)) := rfl
  rw [rateBurst, get, written]
  cases same : c.rateBurst with
  | none => rfl
  | some n =>
      rw [same] at written
      have read := positiveInt_ok R written ⟨5, one_le_five⟩
      show (positiveInt R (dumped c) "rate_burst" ⟨5, one_le_five⟩).map some = _
      rw [read]
      rfl

/-- A configuration loads from what it is written as. -/
theorem loadDict_dumped : loadDict R (dumped c) = .ok c := by
  have scope : get (dumped c) "scope" = .dict [(str "include", listValue c.scopeInclude),
    (str "exclude", listValue c.scopeExclude)] := rfl
  have exclude : get [(str "include", listValue c.scopeInclude),
    (str "exclude", listValue c.scopeExclude)] "exclude" = listValue c.scopeExclude := rfl
  have render : get (dumped c) "render_allow" = listValue c.renderAllow := rfl
  have dangerous : get (dumped c) "dangerous_paths" = listValue c.dangerousPaths := rfl
  have rate : lookup (dumped c) "rate_limit_rps" = some (intValue c.rateLimitRps) := rfl
  have requests : lookup (dumped c) "max_requests" = some (intValue c.maxRequests) := rfl
  have concurrency : lookup (dumped c) "max_concurrency" = some (intValue c.maxConcurrency) := rfl
  have preserve : get (dumped c) "preserve_segments" = listValue c.preserveSegments := rfl
  have slug : lookup (dumped c) "slug_threshold" = some (intValue c.slugThreshold) := rfl
  obtain ⟨declared, scan⟩ := scanIdentity_ok R c
  rw [loadDict, front_ok]
  simp only [bind, Except.bind]
  rw [scan, mapping_ok R scope]
  dsimp only
  rw [stringList_ok R exclude, stringList_ok R render, stringList_ok R dangerous]
  dsimp only
  rw [positiveInt_ok R rate]
  dsimp only
  rw [rateBurst_ok]
  dsimp only
  rw [positiveInt_ok R requests, positiveInt_ok R concurrency, stringList_ok R preserve,
    positiveInt_ok R slug]
  rfl

theorem loadText_dumps : loadText R (dumps R c) = .ok c := by
  have some_ : falsy (.dict (dumped c)) = false := rfl
  rw [loadText, dumps, R.undo]
  dsimp only
  rw [some_]
  exact loadDict_dumped R c

end Whole

/-! ## What is raised -/

/-- Nothing but a `ConfigError`. -/
def Refuses {α : Type} (x : Load α) : Prop := ∀ raised, x = .error raised →
  ∃ message, raised = .configError message

section Refusals

variable {α β : Type} {x : Load α} {f : α → Load β}

theorem refuses_ok (a : α) : Refuses (.ok a : Load α) := by
  intro raised same
  contradiction

theorem refuses_refuse (message : String) : Refuses (refuse message : Load α) := by
  rintro _ ⟨⟩
  exact ⟨message, rfl⟩

theorem Refuses.bind (first : Refuses x) (rest : ∀ a, Refuses (f a)) : Refuses (x >>= f) := by
  intro raised failed
  obtain failed | ⟨a, -, failed⟩ := of_bind_error failed
  · exact first raised failed
  · exact rest a raised failed

theorem Refuses.map (g : α → β) (first : Refuses x) : Refuses (x.map g) := by
  cases x with
  | ok a => exact refuses_ok _
  | error e =>
      rintro _ ⟨⟩
      exact first e rfl

theorem refuses_mapM {γ : Type} {g : γ → Load α} (each : ∀ c, Refuses (g c)) (cs : List γ) :
    Refuses (cs.mapM g) := by
  induction cs with
  | nil => exact refuses_ok []
  | cons c cs ih =>
      rw [List.mapM_cons]
      exact (each c).bind fun a => ih.bind fun as => refuses_ok _

theorem refuses_foldlM {γ : Type} {g : α → γ → Load α} (each : ∀ a c, Refuses (g a c))
    (cs : List γ) (a : α) : Refuses (cs.foldlM g a) := by
  induction cs generalizing a with
  | nil => exact refuses_ok a
  | cons c cs ih =>
      rw [List.foldlM_cons]
      exact (each a c).bind ih

end Refusals

section Raised

variable {τ : Type} (R : Runtime τ)

theorem refuses_mapping (d : Dict) (key : String) : Refuses (mapping R d key) := by
  rw [mapping]
  split
  · exact refuses_ok _
  · exact refuses_ok _
  · exact refuses_refuse _

theorem refuses_checkEntries (key : String) (texts : List Text) (i : ℕ) :
    Refuses (checkEntries key i texts) := by
  induction texts generalizing i with
  | nil => exact refuses_ok []
  | cons x texts ih =>
      rw [checkEntries]
      split
      · exact (ih (i + 1)).map _
      · exact refuses_refuse _

theorem refuses_stringList (d : Dict) (key : String) (default_ : List NonBlank) :
    Refuses (stringList R d key default_) := by
  rw [stringList]
  split
  · exact refuses_ok _
  · split
    · exact refuses_refuse _
    · exact refuses_checkEntries _ _ _
  · exact refuses_refuse _

theorem refuses_positiveInt (d : Dict) (key : String) (default_ : Positive) :
    Refuses (positiveInt R d key default_) := by
  rw [positiveInt]
  split
  · exact refuses_ok _
  · split
    · exact refuses_ok _
    · exact refuses_refuse _
  · exact refuses_refuse _

theorem refuses_required (d : Dict) (key : String) : Refuses (required R d key) := by
  rw [required]
  split
  · split
    · exact refuses_ok _
    · exact refuses_refuse _
  · exact refuses_refuse _

theorem refuses_profile (d : Dict) : Refuses (profile R d) := by
  rw [profile]
  split
  · split_ifs
    · exact refuses_ok _
    · exact refuses_ok _
    · exact refuses_refuse _
  · exact refuses_refuse _

theorem refuses_setCheck (checks : Checks) (entry : Scalar × Value) :
    Refuses (setCheck R checks entry) := by
  rw [setCheck]
  split
  · exact refuses_refuse _
  · exact refuses_ok _
  · exact refuses_refuse _

theorem refuses_optional (v : Value) (refusal : String) : Refuses (optional v refusal) := by
  rw [optional.eq_def]
  split
  · exact refuses_ok _
  · split
    · exact refuses_ok _
    · exact refuses_refuse _
  · exact refuses_refuse _

theorem refuses_liveness (name : Scalar) (raw : Dict) : Refuses (liveness R name raw) := by
  rw [liveness]
  refine (refuses_mapping R raw "liveness").bind fun live => ?_
  split
  · exact refuses_refuse _
  · refine (refuses_optional _ _).bind fun expect => ?_
    split
    · exact refuses_refuse _
    · split
      · split
        · exact (refuses_optional _ _).bind fun absent =>
            (refuses_positiveInt R _ _ _).bind fun every => refuses_ok _
        · exact refuses_refuse _
      · exact refuses_refuse _

theorem refuses_refreshOf (name : Scalar) (raw : Dict) : Refuses (refreshOf R name raw) := by
  rw [refreshOf]
  split
  · split
    · exact refuses_refuse _
    · split
      · exact refuses_refuse _
      · split
        · split
          · split
            · exact refuses_ok _
            · exact refuses_refuse _
          · exact refuses_refuse _
        · exact refuses_refuse _
  · exact refuses_refuse _

theorem refuses_originOf (name : Scalar) (v : Value) : Refuses (originOf R name v) := by
  rw [originOf.eq_def]
  split
  · split
    · split
      · exact refuses_ok _
      · exact refuses_refuse _
    · exact refuses_refuse _
  · exact refuses_refuse _

theorem refuses_originsOf (name : Scalar) (raw : Dict) : Refuses (originsOf R name raw) := by
  rw [originsOf]
  split
  · exact refuses_ok _
  · exact refuses_mapM (refuses_originOf R name) _
  · exact refuses_refuse _

theorem refuses_identity (name : Scalar) (v : Value) : Refuses (identity R name v) := by
  rw [identity.eq_def]
  split
  · split
    · exact refuses_refuse _
    · refine (refuses_mapping R _ _).bind fun inject => ?_
      split
      · exact refuses_refuse _
      · refine (refuses_optional _ _).bind fun env => ?_
        split
        · refine (refuses_liveness R name _).bind fun live => ?_
          refine (refuses_mapping R _ _).bind fun refresh => ?_
          split
          · exact (refuses_originsOf R name _).bind fun origins => refuses_ok _
          · exact refuses_refuse _
          · exact refuses_refuse _
          · exact (refuses_refreshOf R name _).bind fun refresh =>
              (refuses_originsOf R name _).bind fun origins => refuses_ok _
        · exact refuses_refuse _
  · exact refuses_refuse _

theorem refuses_front (d : Dict) : Refuses (front R d) := by
  rw [front]
  refine (refuses_required R d _).bind fun name => (refuses_required R d _).bind fun client => ?_
  refine (refuses_profile R d).bind fun profile => (refuses_mapping R d _).bind fun scope => ?_
  refine (refuses_stringList R scope _ _).bind fun include_ => ?_
  split
  · refine (refuses_mapping R d _).bind fun raw => ?_
    refine (refuses_foldlM (refuses_setCheck R) raw _).bind fun checks => ?_
    refine (refuses_mapping R d _).bind fun declared => ?_
    exact (refuses_mapM (fun entry => refuses_identity R entry.1 entry.2) declared).bind
      fun identities => refuses_ok _
  · exact refuses_refuse _

theorem refuses_rateBurst (d : Dict) : Refuses (rateBurst R d) := by
  rw [rateBurst]
  split
  · exact refuses_ok _
  · exact (refuses_positiveInt R d _ _).map _

/-- The message about a name that is not declared is the one place that sorts. -/
theorem refuses_scanIdentity {d : Dict} {names : List Scalar} :
    Refuses (scanIdentity R d names) ↔
      ∀ s, get d "scan_identity" = .scalar (.str s) → .str s ∈ names ∨ Sortable names := by
  rw [scanIdentity]
  split
  · rename_i null
    refine ⟨fun _ s same => ?_, fun _ => refuses_ok _⟩
    have kinds := Value.scalar.inj (null.symm.trans same)
    contradiction
  · rename_i s there
    by_cases member : .str s ∈ names
    · rw [dif_pos member]
      refine ⟨fun _ t same => .inl ?_, fun _ => refuses_ok _⟩
      cases there.symm.trans same
      exact member
    · rw [dif_neg member]
      by_cases sorts : Sortable names
      · rw [if_pos sorts]
        exact ⟨fun _ t same => .inr sorts, fun _ => refuses_refuse _⟩
      · rw [if_neg sorts]
        constructor
        · intro refuses
          obtain ⟨message, same⟩ := refuses .typeError rfl
          contradiction
        · intro covered
          exact absurd (covered s there) (not_or.2 ⟨member, sorts⟩)
  · rename_i other
    refine ⟨fun _ s same => absurd same (other s), fun _ => refuses_refuse _⟩

end Raised

/-! ## Loading is total but for the sort -/

section Total

variable {τ : Type} (R : Runtime τ)

/-- The names of the identities in a document. -/
def names (d : Dict) : List Scalar :=
  match get d "identities" with
  | .dict items => items.map Prod.fst
  | _ => []

/-- Loading gives a configuration or raises a `ConfigError`, and what it gives loads again from
what it is written as. -/
structure Loads (t : τ) : Prop where
  refuses : ∀ raised, loadText R t = .error raised → ∃ message, raised = .configError message
  back : ∀ c, loadText R t = .ok c → loadText R (dumps R c) = .ok c

/-- A document with nothing wrong before its `scan_identity` has that identity declared, where it
is a text, or identities whose names can be sorted. -/
def Nameable (t : τ) : Prop :=
  ∀ d, R.load t = .ok (.dict d) → (∃ f, front R d = .ok f) →
    ∀ s, get d "scan_identity" = .scalar (.str s) → .str s ∈ names d ∨ Sortable (names d)

theorem identity_id {name : Scalar} {v : Value} {i : Identity R.lowering}
    (read : identity R name v = .ok i) : i.id = name := by
  rw [identity.eq_def] at read
  split at read
  · split at read
    · contradiction
    · obtain ⟨inject, -, read⟩ := of_bind_ok read
      split at read
      · contradiction
      · obtain ⟨env, -, read⟩ := of_bind_ok read
        split at read
        · obtain ⟨live, -, read⟩ := of_bind_ok read
          obtain ⟨refresh, -, read⟩ := of_bind_ok read
          split at read
          · obtain ⟨origins, -, read⟩ := of_bind_ok read
            obtain rfl := Except.ok.inj read
            rfl
          · contradiction
          · contradiction
          · obtain ⟨renewal, -, read⟩ := of_bind_ok read
            obtain ⟨origins, -, read⟩ := of_bind_ok read
            obtain rfl := Except.ok.inj read
            rfl
        · contradiction
  · contradiction

theorem mapM_id {items : Dict} {is : List (Identity R.lowering)}
    (read : items.mapM (fun entry => identity R entry.1 entry.2) = .ok is) :
    is.map Identity.id = items.map Prod.fst := by
  induction items generalizing is with
  | nil =>
      obtain rfl := Except.ok.inj read
      rfl
  | cons entry items ih =>
      rw [List.mapM_cons] at read
      obtain ⟨i, here, read⟩ := of_bind_ok read
      obtain ⟨rest, later, read⟩ := of_bind_ok read
      obtain rfl := Except.ok.inj read
      rw [List.map_cons, List.map_cons, ih later, identity_id R here]

theorem front_names {d : Dict} {f : Front R.lowering} (read : front R d = .ok f) :
    f.identities.map Identity.id = names d := by
  rw [front] at read
  obtain ⟨_, -, read⟩ := of_bind_ok read
  obtain ⟨_, -, read⟩ := of_bind_ok read
  obtain ⟨_, -, read⟩ := of_bind_ok read
  obtain ⟨_, -, read⟩ := of_bind_ok read
  obtain ⟨_, -, read⟩ := of_bind_ok read
  split at read
  · obtain ⟨_, -, read⟩ := of_bind_ok read
    obtain ⟨_, -, read⟩ := of_bind_ok read
    obtain ⟨declared, mapped, read⟩ := of_bind_ok read
    obtain ⟨is, each, read⟩ := of_bind_ok read
    obtain rfl := Except.ok.inj read
    rw [mapM_id R each, names]
    rw [mapping] at mapped
    split at mapped
    · rename_i null
      obtain rfl := Except.ok.inj mapped
      rw [null]
      rfl
    · rename_i items there
      obtain rfl := Except.ok.inj mapped
      rw [there]
    · contradiction
  · contradiction

theorem refuses_loadDict {d : Dict} : Refuses (loadDict R d) ↔ ((∃ f, front R d = .ok f) →
    ∀ s, get d "scan_identity" = .scalar (.str s) → .str s ∈ names d ∨ Sortable (names d)) := by
  rw [loadDict]
  cases read : front R d with
  | error raised =>
      refine ⟨fun _ found => ?_, fun _ => ?_⟩
      · obtain ⟨f, same⟩ := found
        contradiction
      · rintro _ ⟨⟩
        exact refuses_front R d raised read
  | ok f =>
      rw [← front_names R read, ← refuses_scanIdentity R]
      constructor
      · intro whole _ raised failed
        refine whole raised ?_
        show (scanIdentity R d (f.identities.map Identity.id) >>= _) = _
        rw [failed]
        rfl
      · intro covered
        show Refuses (scanIdentity R d (f.identities.map Identity.id) >>= _)
        refine (covered ⟨f, rfl⟩).bind fun scan => ?_
        refine (refuses_mapping R d _).bind fun scope => ?_
        refine (refuses_stringList R _ _ _).bind fun exclude => ?_
        refine (refuses_stringList R _ _ _).bind fun render => ?_
        refine (refuses_stringList R _ _ _).bind fun dangerous => ?_
        refine (refuses_positiveInt R _ _ _).bind fun rate => ?_
        refine (refuses_rateBurst R _).bind fun burst => ?_
        refine (refuses_positiveInt R _ _ _).bind fun requests => ?_
        refine (refuses_positiveInt R _ _ _).bind fun concurrency => ?_
        refine (refuses_stringList R _ _ _).bind fun preserve => ?_
        exact (refuses_positiveInt R _ _ _).bind fun slug => refuses_ok _

theorem refuses_empty : Refuses (loadDict R []) := by
  refine (refuses_loadDict R).2 fun _ s same => ?_
  have kinds := Value.scalar.inj same
  contradiction

end Total

/-- Texts as the trees they are read as. -/
def trees : Runtime Value where
  load := .ok
  dump := id
  undo := fun _ => rfl
  repr := fun _ => "..."
  typeName := fun _ => "..."
  spell := fun _ => "..."
  sorted := fun _ => "..."
  lowering := plain

def sessionIdentity : Value :=
  .dict [(str "strategy", textValue (text "static")),
    (str "inject", .dict [(str "header", textValue (text "Cookie")),
      (str "value_from_env", textValue (text "SESSION"))]),
    (str "liveness", .dict [(str "path", textValue (text "/me")),
      (str "expect_body", textValue (text "signed in"))])]

/-- Two identities, `1` and `alice`, and a `scan_identity` that is neither. -/
def mixedNames : Dict :=
  [(str "name", textValue (text "n")), (str "client", textValue (text "c")),
    (str "scope", .dict [(str "include", .list [textValue (text "https://h.test/")])]),
    (str "identities", .dict [(.int 1, sessionIdentity), (str "alice", sessionIdentity)]),
    (str "scan_identity", textValue (text "bob"))]

end Hx.Engagement

import Mathlib.Logic.ExistsUnique
import SubnetRegistry.Proofs.Mask.Resolve
import SubnetRegistry.Proofs.Name.Identifier
import SubnetRegistry.Proofs.Service.Effect
import SubnetRegistry.Proofs.Service.Failure

/-!
# What requests are refused for

Whether a request is refused, and for what, is told from its text alone, whatever is stored. A creation
is refused unless its identifier is a label, an update first for its mask, and then, like a fetch and a
deletion, for its name. A request that is not refused goes on to make calls about one name.

## Main definitions

* `Service.Admits` — a request is not refused, and is about a name.
* `Request.Naming` — requests of which only a name is left to check.

## Main statements

* `Service.admits_of_plan` — a request that passes its checks is admitted.
* `Service.mask_checked_first` — masks are checked before anything else is.
* `Service.creation_admitted` — which creations are admitted, and what the others are told.
* `Service.name_verdict` — which names are admitted, and what is wrong with the others.
-/
namespace SubnetRegistry

variable {name fresh : String} {r : Request} {plan : Plan} {e : SubnetError}

namespace Service

variable {s : Service} {around : Surroundings}

/-- A request passes its checks. It goes on to call the store, all its calls are about the name, and what
it may fail with is not what requests are refused for. -/
structure Admits (s : Service) (around : Surroundings) (r : Request) (name : String) : Prop where
  planned : ∃ plan, r.plan (s.nextIdentifier around) = .ok plan ∧ plan.name = name
  called : (s.handle around r).calls ≠ []
  about : ∀ c ∈ (s.handle around r).calls, c.name = name
  not_refused : ∀ e, (s.handle around r).result = .error e → e.kind.isRefusal = false

theorem Admits.name_eq (h : s.Admits around r name)
    (hplan : r.plan (s.nextIdentifier around) = .ok plan) : plan.name = name := by
  obtain ⟨plan', hplan', rfl⟩ := h.planned
  rw [Except.ok.inj (hplan.symm.trans hplan')]

theorem Admits.handle_ne (h : s.Admits around r name) (after : Service) :
    s.handle around r ≠ ⟨.error e, [], after⟩ := fun hrefused =>
  h.called (congrArg Handled.calls hrefused)

/-- A request that passes its checks is admitted. -/
theorem admits_of_plan (h : r.plan (s.nextIdentifier around) = .ok plan) :
    s.Admits around r plan.name := by
  obtain ⟨c, hc⟩ := (Request.plan_sound h).calls
  have hrun := (Request.plan_tidy h).orderly around.fails s.store
  refine ⟨⟨plan, h, rfl⟩, ?_, ?_, ?_⟩
  all_goals simp only [handle, plan_issued, h]
  · rw [Program.run_eq_step hc]
    exact List.cons_ne_nil _ _
  · exact hrun.names
  · exact fun e he => (hrun.unchanged e he).2

end Service

/-! ## Names -/

/-- The request is about a name, and there is nothing else to be checked. -/
inductive Request.Naming (name : String) : Request → Prop
  | get : Naming name (.get ⟨name⟩)
  | update {u : UpdateRequest} {fields : List SubnetField} (hname : u.subnet.name = name)
      (hmask : FieldMask.resolve u.updateMask = .ok fields) : Naming name (.update u)
  | delete (allowMissing : Bool) : Naming name (.delete ⟨name, allowMissing⟩)

namespace Request.Naming

theorem needsIdentifier (h : r.Naming name) : r.needsIdentifier = false := by
  cases h <;> rfl

theorem plan_eq_error (h : r.Naming name) (hv : Name.validate name = .error e) (fresh : String) :
    r.plan fresh = .error e := by
  cases h with
  | get | delete => exact bind_of_eq_error hv _
  | update hname hmask =>
    subst hname
    rw [plan, hmask]
    exact bind_of_eq_error hv _

theorem exists_plan (h : r.Naming name) (hv : Name.validate name = .ok ()) (fresh : String) :
    ∃ plan, r.plan fresh = .ok plan ∧ plan.name = name := by
  cases h with
  | get => exact ⟨_, plan_get_of_valid fresh hv, rfl⟩
  | update hname hmask =>
    subst hname
    exact ⟨_, plan_update_of_valid fresh hmask hv, rfl⟩
  | delete allowMissing => exact ⟨_, plan_delete_of_valid fresh hv, rfl⟩

end Request.Naming

namespace Service

variable {s : Service} {around : Surroundings}

theorem handle_of_invalid_name (h : r.Naming name) (hv : Name.validate name = .error e)
    (s : Service) (around : Surroundings) : s.handle around r = ⟨.error e, [], s⟩ :=
  handle_of_refused (h.plan_eq_error hv _) h.needsIdentifier

theorem admits_of_valid_name (h : r.Naming name) (hv : Name.validate name = .ok ())
    (s : Service) (around : Surroundings) : s.Admits around r name := by
  obtain ⟨plan, hplan, rfl⟩ := h.exists_plan hv (s.nextIdentifier around)
  exact admits_of_plan hplan

/-- The names that pass are the paths of segments. Any other text can be cut in one way around its first
piece that is no segment, with which it is refused. Fetches, updates with a good mask and deletions give
this verdict, whatever is stored. -/
theorem name_verdict :
    (∀ n, Name.validate n = .ok () ↔ ∃ segments : List String, segments ≠ [] ∧
        (∀ segment ∈ segments, Name.Segment segment) ∧ n = "/".intercalate segments) ∧
      (∀ n, Name.validate n ≠ .ok () → ∃! c : Name.Cut, c.Offends ∧ c.whole = n) ∧
      (∀ c : Name.Cut, c.Offends → Name.validate c.whole = .error (.invalidName c.piece)) ∧
      ∀ n r, Request.Naming n r → ∀ (s : Service) (around : Surroundings),
        (∀ e, Name.validate n = .error e → s.handle around r = ⟨.error e, [], s⟩) ∧
          (Name.validate n = .ok () → s.Admits around r n) := by
  refine ⟨fun n => Name.validate_eq_ok_iff_path, fun n hn => ?_, fun c h => h.validate_whole,
    fun n r h s around => ⟨fun e hv => ?_, fun hv => ?_⟩⟩
  · cases hv : Name.validate n with
    | ok => exact absurd hv hn
    | error e =>
      obtain ⟨c, hc, hwhole, -⟩ := Name.exists_cut hv
      exact ⟨c, ⟨hc, hwhole⟩, fun c' h' => h'.1.eq_of_whole_eq hc (h'.2.trans hwhole.symm)⟩
  · exact handle_of_invalid_name h hv s around
  · exact admits_of_valid_name h hv s around

/-- A deletion of a name with two slashes in a row, and one of a name with one. -/
theorem name_verdict_doubled_slash :
    let s : Service := { store := Store.empty.put "subnets/x" {} }
    let around : Surroundings := { identifier := fun _ => "" }
    let c : Name.Cut := ⟨["subnets"], "", some "x"⟩
    (c.Offends ∧ c.whole = "subnets//x") ∧ (∃! c : Name.Cut, c.Offends ∧ c.whole = "subnets//x") ∧
      s.handle around (.delete ⟨"subnets//x", true⟩) = ⟨.error (.invalidName ""), [], s⟩ ∧
      s.Admits around (.delete ⟨"subnets/x", true⟩) "subnets/x" := by
  intro s around c
  have hc : c.Offends := ⟨by decide, by decide, by decide⟩
  obtain ⟨-, hcut, hcited, hrequests⟩ := name_verdict
  have hv : Name.validate "subnets//x" = .error (.invalidName "") := hcited c hc
  refine ⟨⟨hc, rfl⟩, hcut _ (by rw [hv]; exact nofun), ?_, ?_⟩
  · exact (hrequests _ _ (.delete true) s around).1 _ hv
  · exact (hrequests _ _ (.delete true) s around).2 (by decide)

/-! ## Masks -/

theorem handle_of_invalid_mask {u : UpdateRequest} {reason : FieldMaskError}
    (h : FieldMask.resolve u.updateMask = .error reason) (s : Service) (around : Surroundings) :
    s.handle around (.update u) = ⟨.error (.invalidFieldMask reason), [], s⟩ := by
  refine handle_of_refused ?_ rfl
  rw [Request.plan, h]
  rfl

/-- An update whose mask passes is not refused for its mask. -/
theorem handle_ne_of_valid_mask {u : UpdateRequest} {fields : List SubnetField}
    (h : FieldMask.resolve u.updateMask = .ok fields) (reason : FieldMaskError) :
    s.handle around (.update u) ≠ ⟨.error (.invalidFieldMask reason), [], s⟩ := by
  have hnaming : Request.Naming u.subnet.name (.update u) := .update rfl h
  cases hv : Name.validate u.subnet.name with
  | ok => exact (admits_of_valid_name hnaming hv s around).handle_ne s
  | error e =>
    obtain ⟨c, -, -, rfl⟩ := Name.exists_cut hv
    rw [handle_of_invalid_name hnaming hv]
    exact nofun

/-- A mask is refused for a wildcard that is not alone, and else for its first path that is of no field;
any other names the fields of its paths, and none only if it stands for all. For this alone an update
fails, and leaves its target as it is. A request for it is told so first, whatever is stored, whatever
name it is about and whether or not that may be missing. -/
theorem mask_checked_first :
    (∀ paths : List String,
      (FieldMask.resolve (some ⟨paths⟩) = .error .wildcardWithOtherPaths ↔
          1 < paths.length ∧ "*" ∈ paths) ∧
        (∀ p, FieldMask.resolve (some ⟨paths⟩) = .error (.unknownPath p) ↔
          ¬ (1 < paths.length ∧ "*" ∈ paths) ∧ paths ≠ ["*"] ∧
            paths.find? (fun q => q ∉ fieldPaths) = some p) ∧
        ∀ fields, FieldMask.resolve (some ⟨paths⟩) = .ok fields ↔
          fields = [] ∧ (paths = [] ∨ paths = ["*"]) ∨ FieldMask.Names paths fields) ∧
      (∀ (mask : Option FieldMask) (target source : Subnet),
        (∀ e, FieldMask.apply mask target source = .error e ↔
            ∃ reason, FieldMask.resolve mask = .error reason ∧ e = .invalidFieldMask reason) ∧
          (∀ e after, (FieldMask.updateInPlace mask source).run target = .error e after ↔
            after = target ∧ FieldMask.apply mask target source = .error e) ∧
          ∀ updated, (FieldMask.updateInPlace mask source).run target = .ok () updated ↔
            FieldMask.apply mask target source = .ok updated) ∧
      ∀ (s : Service) (around : Surroundings) (u : UpdateRequest) (reason : FieldMaskError),
        s.handle around (.update u) = ⟨.error (.invalidFieldMask reason), [], s⟩ ↔
          FieldMask.resolve u.updateMask = .error reason := by
  refine ⟨fun paths => ⟨FieldMask.resolve_eq_wildcard_iff, fun p => FieldMask.resolve_eq_unknown_iff,
      fun fields => FieldMask.resolve_eq_ok_iff⟩,
    fun mask target source => ⟨fun e => FieldMask.apply_eq_error_iff,
      fun e after => FieldMask.run_updateInPlace_eq_error_iff,
      fun updated => FieldMask.run_updateInPlace_eq_ok_iff⟩,
    fun s around u reason => ?_⟩
  constructor
  · intro hrefused
    cases h : FieldMask.resolve u.updateMask with
    | ok fields => exact absurd hrefused (handle_ne_of_valid_mask h reason)
    | error reason' =>
      rw [handle_of_invalid_mask h] at hrefused
      cases hrefused
      rfl
  · exact fun h => handle_of_invalid_mask h s around

/-- Of a wildcard, a path of no field and an empty name, the first is reported. -/
example : ((⟨.empty, 0⟩ : Service).handle ⟨fun _ => "", fun _ => none⟩
    (.update ⟨{}, some ⟨["nowhere", "*"]⟩, true⟩)).result =
      .error (.invalidFieldMask .wildcardWithOtherPaths) := by
  decide

/-! ## Creations -/

section Creation

variable {c : CreateRequest}

theorem identifier_of_chosen (hid : c.subnetId ≠ "")
    (hall : ∀ ch ∈ c.subnetId.toList, Name.IsLabelChar ch) (fresh : String) :
    c.identifier fresh = .ok c.subnetId := by
  rw [CreateRequest.identifier, if_neg hid]
  exact bind_of_eq_ok (Identifier.validate_of_allowed hall) _

theorem handle_of_illegal_identifier (hid : c.subnetId ≠ "") {before after : List Char} {ch : Char}
    (hchars : c.subnetId.toList = before ++ ch :: after)
    (hbefore : ∀ b ∈ before, Name.IsLabelChar b) (hch : ¬ Name.IsLabelChar ch) :
    s.handle around (.create c) = ⟨.error (.invalidIdentifier ch before.length), [], s⟩ := by
  refine handle_of_refused ?_ (decide_eq_false hid)
  -- the identifier is checked before its name is built
  refine bind_of_eq_error ?_ _
  rw [CreateRequest.identifier, if_neg hid]
  exact bind_of_eq_error (Identifier.validate_of_illegal hchars hbefore hch) _

theorem handle_of_no_label (hid : c.subnetId ≠ "")
    (hall : ∀ ch ∈ c.subnetId.toList, Name.IsLabelChar ch) (h : ¬ Name.DnsLabel c.subnetId) :
    s.handle around (.create c) = ⟨.error (.invalidName c.subnetId), [], s⟩ := by
  refine handle_of_refused ?_ (decide_eq_false hid)
  rw [Request.plan, bind_of_eq_ok (identifier_of_chosen hid hall _)]
  exact bind_of_eq_error (Name.validate_build_of_not_dnsLabel hall h) _

/-- A creation whose identifier is a label is admitted under its name. -/
theorem admits_create {id : String} (hid : c.identifier (s.nextIdentifier around) = .ok id)
    (h : Name.DnsLabel id) : s.Admits around (.create c) ("subnets/" ++ id) := by
  have hplan := Request.plan_create_of_valid hid (Name.validate_build h)
  exact Name.build_collection id ▸ admits_of_plan hplan

/-- What is admitted has a label as its identifier. -/
theorem Admits.dnsLabel (h : s.Admits around (.create c) name) (hid : c.subnetId ≠ "") :
    Name.DnsLabel c.subnetId := by
  rcases Identifier.allowed_or_illegal c.subnetId.toList with hall | ⟨before, ch, after, hchars, hb, hch⟩
  · by_contra hlabel
    exact h.handle_ne s (handle_of_no_label hid hall hlabel)
  · exact absurd (handle_of_illegal_identifier hid hchars hb hch) (h.handle_ne s)

theorem admits_create_iff (hid : c.subnetId ≠ "") :
    s.Admits around (.create c) name ↔
      Name.DnsLabel c.subnetId ∧ name = "subnets/" ++ c.subnetId := by
  have hadmits (h : Name.DnsLabel c.subnetId) :
      s.Admits around (.create c) ("subnets/" ++ c.subnetId) :=
    admits_create (identifier_of_chosen hid h.allowed _) h
  constructor
  · intro h
    obtain ⟨plan, hplan, rfl⟩ := h.planned
    exact ⟨h.dnsLabel hid, ((hadmits (h.dnsLabel hid)).name_eq hplan).symm ▸ rfl⟩
  · rintro ⟨h, rfl⟩
    exact hadmits h

/-- A creation is admitted exactly if the identifier that was chosen is a label, and then under the name
that ends with it. If it is not, its first character that no label has is reported with its place, or
else the whole of it. With a generated identifier a creation is always admitted. One that is refused
makes no call and changes nothing. -/
theorem creation_admitted (s : Service) (around : Surroundings) (c : CreateRequest) :
    (c.subnetId ≠ "" →
      (∀ name, s.Admits around (.create c) name ↔
          Name.DnsLabel c.subnetId ∧ name = "subnets/" ++ c.subnetId) ∧
        (∀ before ch after, c.subnetId.toList = before ++ ch :: after →
          (∀ b ∈ before, Name.IsLabelChar b) → ¬ Name.IsLabelChar ch →
            s.handle around (.create c) = ⟨.error (.invalidIdentifier ch before.length), [], s⟩) ∧
        ((∀ ch ∈ c.subnetId.toList, Name.IsLabelChar ch) → ¬ Name.DnsLabel c.subnetId →
          s.handle around (.create c) = ⟨.error (.invalidName c.subnetId), [], s⟩) ∧
        ∀ (s' : Service) (around' : Surroundings) (c' : CreateRequest) name, c'.subnetId ≠ "" →
          s.Admits around (.create c) name → s'.Admits around' (.create c') name →
            c.subnetId = c'.subnetId) ∧
      (c.subnetId = "" → Identifier.IsUuid (s.nextIdentifier around) →
        s.Admits around (.create c) ("subnets/" ++ s.nextIdentifier around)) ∧
      ∀ e, (s.handle around (.create c)).result = .error e → e.kind.isRefusal = true →
        (s.handle around (.create c)).calls = [] ∧
          (s.handle around (.create c)).service.store = s.store := by
  refine ⟨fun hid => ⟨fun name => admits_create_iff hid,
      fun before ch after => handle_of_illegal_identifier hid, handle_of_no_label hid, ?_⟩,
    fun hid hfresh => ?_, fun e he hrefusal => ?_⟩
  · intro s' around' c' name hid' h h'
    have hname := ((admits_create_iff hid).1 h).2.symm.trans ((admits_create_iff hid').1 h').2
    exact Name.build_inj hname
  · exact admits_create (if_pos hid) hfresh.dnsLabel
  · have horderly := s.handle_orderly around (.create c)
    exact ⟨horderly.refused e he hrefusal, horderly.unchanged e he⟩

/-- Identifiers with a slash, with a hyphen in front and of one letter, and a generated one. -/
theorem creation_admitted_four :
    let s : Service := { store := Store.empty }
    let around : Surroundings := { identifier := Identifier.generate 1700000000000 }
    let c (id : String) : CreateRequest := { parent := "", subnetId := id, subnet := {} }
    s.handle around (.create (c "a/B")) = ⟨.error (.invalidIdentifier '/' 1), [], s⟩ ∧
      s.handle around (.create (c "-a")) = ⟨.error (.invalidName "-a"), [], s⟩ ∧
      s.Admits around (.create (c "a")) "subnets/a" ∧
      s.Admits around (.create (c "")) ("subnets/" ++ s.nextIdentifier around) := by
  intro s around c
  have hfresh : Identifier.IsUuid (s.nextIdentifier around) :=
    Identifier.isUuid_of_isUuidV7 (Identifier.isUuidV7_generate _ _)
  refine ⟨?_, ?_, ?_, ?_⟩
  · obtain ⟨-, hillegal, -⟩ := (creation_admitted s around (c "a/B")).1 (by decide)
    exact hillegal ['a'] '/' ['B'] (by decide) (Name.all_isAllowed_iff.1 rfl) (by decide)
  · obtain ⟨-, -, hform, -⟩ := (creation_admitted s around (c "-a")).1 (by decide)
    exact hform (Name.all_isAllowed_iff.1 (by decide)) (by decide)
  · obtain ⟨hadmits, -⟩ := (creation_admitted s around (c "a")).1 (by decide)
    exact (hadmits _).2 ⟨by decide, rfl⟩
  · exact (creation_admitted s around (c "")).2.1 rfl hfresh

end Creation

end Service
end SubnetRegistry

import SubnetRegistry.Proofs.Config.Accepted

/-!
# Configurations are read back

Every configuration that was accepted can be written as variables, and is what these variables say. Two
things make it so: the pieces that were cut and trimmed are pieces again when commas are put between
them, and a number that fits is read from its decimal form.

## Main definitions

* `Config.Sound` — what holds of every configuration that was accepted.

## Main statements

* `Config.sound_of_ofLookup`, `Config.Sound.ofLookup_environment` — it holds of them, and of no others.
* `Config.read_back` — an accepted configuration is read back, also with other timeouts.
-/
namespace SubnetRegistry.Config

/-- A server as it stands in a configuration: it is not empty, has no comma, and no blank at an end. -/
structure IsServer (s : String) : Prop where
  ne_empty : s ≠ ""
  comma_not_mem : ',' ∉ s.toList
  bare : Text.Bare s.toList

/-- A configuration has servers, timeouts that fit and a root. -/
structure Sound (c : Config) : Prop where
  servers_ne_nil : c.servers ≠ []
  servers : ∀ s ∈ c.servers, IsServer s
  connectTimeout : c.connectTimeout < UInt64.size
  requestTimeout : c.requestTimeout < UInt64.size
  subjectRoot : isRoot c.subjectRoot = true

variable {lookup : String → Option String} {c : Config}

/-! ## What was accepted is sound -/

/-- The servers that a text says are the pieces of it, so no comma is in one, and each is trimmed. -/
theorem isServer_of_saysServers {text : String} {servers : List String}
    (h : SaysServers text servers) : ∀ s ∈ servers, IsServer s := by
  intro s hs
  rw [← servers?_eq_iff.2 h, servers?_eq_map] at hs
  obtain ⟨piece, hpiece, rfl⟩ := List.mem_map.1 hs
  obtain ⟨hpiece, hnames⟩ := List.mem_filter.1 hpiece
  rw [decide_eq_true_iff] at hnames
  constructor
  · intro hempty
    refine not_namesServer_iff.2 ?_ hnames
    simpa using congrArg String.toList hempty
  · rw [String.toList_ofList]
    exact fun hmem => Text.not_mem_of_mem_pieces hpiece (Text.mem_of_mem_trim hmem)
  · rw [String.toList_ofList]
    exact Text.bare_trim _

theorem sound_of_ofLookup (h : ofLookup lookup = .ok c) : c.Sound := by
  obtain ⟨hservers, -, hconnect, hrequest, -, hroot⟩ := ofLookup_eq_ok_iff.1 h
  rw [serversOr_eq_ok_iff] at hservers
  rw [secondsOr_eq_ok_iff] at hconnect hrequest
  constructor
  · split at hservers
    · rw [hservers]
      decide
    · exact hservers.2
  · split at hservers
    · rw [hservers]
      exact isServer_of_saysServers (servers?_eq_iff.1 (by decide :
        servers? "nats://localhost:4222" = ["nats://localhost:4222"]))
    · exact isServer_of_saysServers hservers.1
  · split at hconnect
    · rw [hconnect]
      decide
    · exact hconnect.2
  · split at hrequest
    · rw [hrequest]
      decide
    · exact hrequest.2
  · exact hroot

/-! ## What is sound is read back -/

/-- A number is said by its decimal form. -/
theorem saysSeconds_natText (n : Nat) : SaysSeconds (Decimal.natText n) n := by
  refine ⟨[], [], Decimal.ofNat n, [], ?_, nofun, .inl rfl, Nat.toDigits_ne_nil, ?_, nofun, ?_⟩
  · rw [Decimal.natText, String.toList_ofList]
    simp
  · exact Decimal.isDigit_of_mem_ofNat
  · exact Nat.ofDigitChars_ten_toDigits

/-- Servers are said by the text with commas between them. -/
theorem saysServers_join {servers : List String} (hne : servers ≠ [])
    (h : ∀ s ∈ servers, IsServer s) :
    SaysServers (String.ofList (Text.join ',' (servers.map String.toList))) servers := by
  have hpieces : Text.pieces ',' (String.ofList (Text.join ',' (servers.map String.toList))) =
      servers := by
    rw [Text.pieces, String.toList_ofList, Text.split_join (by simpa using hne)]
    · simp
    · intro piece hpiece
      obtain ⟨s, hs, rfl⟩ := List.mem_map.1 hpiece
      exact (h s hs).comma_not_mem
  have htrims : ∀ s ∈ servers, Text.TrimsTo s.toList s.toList := fun s hs =>
    Text.trim_eq_iff.1 (h s hs).bare.trim_eq
  have hnames : servers.filter NamesServer = servers := by
    refine List.filter_eq_self.2 fun s hs => decide_eq_true ?_
    by_contra hnot
    have hnil := not_namesServer_iff.1 hnot
    rw [(h s hs).bare.trim_eq] at hnil
    exact (h s hs).ne_empty (String.toList_eq_nil_iff.1 hnil)
  rw [SaysServers, hpieces, hnames, List.forall₂_same]
  exact htrims

/-- A sound configuration is what its variables say. -/
theorem Sound.ofLookup_environment (h : c.Sound) :
    ofLookup (fun key => c.environment.lookup key) = .ok c := by
  rw [ofLookup_eq_ok_iff]
  refine ⟨?_, rfl, ?_, ?_, rfl, h.subjectRoot⟩
  · exact serversOr_eq_ok_iff.2 ⟨saysServers_join h.servers_ne_nil h.servers, h.servers_ne_nil⟩
  · exact secondsOr_eq_ok_iff.2 ⟨saysSeconds_natText _, h.connectTimeout⟩
  · exact secondsOr_eq_ok_iff.2 ⟨saysSeconds_natText _, h.requestTimeout⟩

/-- Variables are written for every configuration that was accepted from which the same configuration is
read. No server in it is empty, has a comma, or begins or ends with a blank. Every timeout that fits is
read back, whatever the others are. -/
theorem read_back (h : ofLookup lookup = .ok c) :
    ofLookup (fun key => c.environment.lookup key) = .ok c ∧
    (∀ s ∈ c.servers, s ≠ "" ∧ ',' ∉ s.toList ∧ Text.Bare s.toList) ∧
    ∀ connectTimeout requestTimeout, connectTimeout < UInt64.size → requestTimeout < UInt64.size →
      let d := { c with connectTimeout, requestTimeout }
      ofLookup (fun key => d.environment.lookup key) = .ok d := by
  have hsound := sound_of_ofLookup h
  refine ⟨hsound.ofLookup_environment, fun s hs => ?_, fun connect request hconnect hrequest => ?_⟩
  · have hserver := hsound.servers s hs
    exact ⟨hserver.ne_empty, hserver.comma_not_mem, hserver.bare⟩
  · exact Sound.ofLookup_environment
      { hsound with connectTimeout := hconnect, requestTimeout := hrequest }

/-- Blanks, an empty piece, a sign and leading zeros are gone from what is written. -/
theorem read_back_nats_url :
    let lookup := fun key =>
      [("NATS_URL", " nats://a , ,b"), ("NATS_CONNECT_TIMEOUT_SECS", "\t+007 ")].lookup key
    let c : Config := { servers := ["nats://a", "b"], connectTimeout := 7 }
    ofLookup lookup = .ok c ∧ c.environment.lookup "NATS_URL" = some "nats://a,b" ∧
      ofLookup (fun key => c.environment.lookup key) = .ok c := by
  have h : ofLookup (fun key =>
      [("NATS_URL", " nats://a , ,b"), ("NATS_CONNECT_TIMEOUT_SECS", "\t+007 ")].lookup key) =
        .ok { servers := ["nats://a", "b"], connectTimeout := 7 } := by decide +kernel
  exact ⟨h, by decide, (read_back h).1⟩

end SubnetRegistry.Config

import SubnetRegistry.Proofs.Config
import SubnetRegistry.Proofs.Config.Texts

/-!
# Which configurations are accepted

Four of the variables are checked, each by itself, and a variable that is absent always passes. Of those
that do not pass the first in the order of the checks is reported. A configuration that is accepted says
what the variables say, and the default where one is absent.

## Main definitions

* `Config.Setting` — what is checked, in order; `Setting.Admits` — the texts that pass.
* `Config.FirstOffence` — the error for the first setting that does not pass.
* `Config.Reads` — a configuration says what the variables say.

## Main statements

* `Config.ofLookup_eq_error_iff`, `Config.exists_ofLookup_iff` — when there is an error, and when none.
* `Config.accepted_or_refused` — which variables are accepted, as what, and how others are refused.
-/
namespace SubnetRegistry.Config

/-! ## Checks -/

/-- What is checked of the variables, in the order in which it is. -/
inductive Setting where
  | servers
  | connectTimeout
  | requestTimeout
  | subjectRoot
  deriving DecidableEq

namespace Setting

def all : List Setting := [.servers, .connectTimeout, .requestTimeout, .subjectRoot]

def key : Setting → String
  | .servers => serversVariable
  | .connectTimeout => connectTimeoutVariable
  | .requestTimeout => requestTimeoutVariable
  | .subjectRoot => subjectRootVariable

def Admits : Setting → String → Prop
  | .servers, text => ∃ piece ∈ Text.pieces ',' text, NamesServer piece
  | .connectTimeout, text | .requestTimeout, text => ∃ n, SaysSeconds text n ∧ n < UInt64.size
  | .subjectRoot, text => text ≠ "" ∧ ∀ c ∈ text.toList, c ≠ '*' ∧ c ≠ '>' ∧ c ≠ ' '

def error : Setting → String → ConfigError
  | .servers, _ => .noServer
  | .connectTimeout, text => .badSeconds connectTimeoutVariable text
  | .requestTimeout, text => .badSeconds requestTimeoutVariable text
  | .subjectRoot, text => .badRoot text

/-- The variable is there and its text does not pass. -/
def Offends (lookup : String → Option String) (s : Setting) : Prop :=
  ∃ text, lookup s.key = some text ∧ ¬ s.Admits text

/-- The text of a setting that passes is admitted. -/
theorem admits_of_not_offends {lookup : String → Option String} {s : Setting} {text : String}
    (h : ¬ s.Offends lookup) (htext : lookup s.key = some text) : s.Admits text := by
  by_contra hnot
  exact h ⟨text, htext, hnot⟩

/-- The error is a failure of the configuration whose wording begins with the variable. -/
theorem toInfrastructureError_error (s : Setting) (text : String) :
    ∃ rest, (s.error text).toInfrastructureError = ⟨.configuration, s.key ++ rest⟩ := by
  suffices h : ∃ rest, (s.error text).message = s.key ++ rest by
    obtain ⟨rest, hrest⟩ := h
    exact ⟨rest, congrArg (InfrastructureError.mk .configuration) hrest⟩
  cases s with
  | servers => exact ⟨_, rfl⟩
  | connectTimeout | requestTimeout =>
    refine ⟨" must be a whole number of seconds, got '" ++ text ++ "'", ?_⟩
    simp only [error, ConfigError.message, key, String.append_assoc]
  | subjectRoot =>
    refine ⟨" is not a valid subject prefix: '" ++ text ++ "'", ?_⟩
    simp only [error, ConfigError.message, key, String.append_assoc]

end Setting

/-- The error for the first setting that does not pass. -/
def FirstOffence (lookup : String → Option String) (e : ConfigError) : Prop :=
  ∃ before s after text, Setting.all = before ++ s :: after ∧ (∀ t ∈ before, ¬ t.Offends lookup) ∧
    lookup s.key = some text ∧ ¬ s.Admits text ∧ e = s.error text

/-- A configuration says what the variables say, and the default where one is absent. -/
structure Reads (lookup : String → Option String) (c : Config) : Prop where
  servers : match lookup serversVariable with
    | none => c.servers = ["nats://localhost:4222"]
    | some text => SaysServers text c.servers
  clientName : c.clientName = (lookup clientNameVariable).getD "cim-subnet"
  connectTimeout : match lookup connectTimeoutVariable with
    | none => c.connectTimeout = 10
    | some text => SaysSeconds text c.connectTimeout ∧ c.connectTimeout < UInt64.size
  requestTimeout : match lookup requestTimeoutVariable with
    | none => c.requestTimeout = 5
    | some text => SaysSeconds text c.requestTimeout ∧ c.requestTimeout < UInt64.size
  subjectRoot : c.subjectRoot = (lookup subjectRootVariable).getD "opi"

/-! ## Single settings -/

variable {lookup : String → Option String} {c : Config} {e : ConfigError}

theorem servers_admits_iff {text : String} : Setting.servers.Admits text ↔ servers? text ≠ [] := by
  simp [Setting.Admits, servers?_eq_nil_iff]

theorem seconds_admitted_iff {text : String} :
    (∃ n, SaysSeconds text n ∧ n < UInt64.size) ↔ ∃ n, seconds? text = some n := by
  simp only [seconds?_eq_some_iff]

theorem subjectRoot_admits_iff {root : String} :
    Setting.subjectRoot.Admits root ↔ isRoot root = true := by
  simp [isRoot, Setting.Admits, and_assoc]

theorem serversOr_eq_ok_iff {default servers : List String} {value : Option String} :
    serversOr default value = .ok servers ↔ match value with
      | none => servers = default
      | some text => SaysServers text servers ∧ servers ≠ [] := by
  cases value with
  | none => simp [serversOr, eq_comm]
  | some text =>
    simp only [serversOr, ← servers?_eq_iff]
    cases servers? text with
    | nil => simp +contextual [eq_comm]
    | cons server rest => simp +contextual [eq_comm]

theorem secondsOr_eq_ok_iff {default n : Nat} {key : String} {value : Option String} :
    secondsOr default key value = .ok n ↔ match value with
      | none => n = default
      | some text => SaysSeconds text n ∧ n < UInt64.size := by
  cases value with
  | none => simp [secondsOr, eq_comm]
  | some text =>
    simp only [secondsOr, ← seconds?_eq_some_iff]
    cases seconds? text <;> simp

theorem serversOr_eq_error {default : List String} {text : String}
    (h : ¬ Setting.servers.Admits text) :
    serversOr default (some text) = .error (Setting.servers.error text) := by
  rw [serversOr, Classical.not_not.1 (mt servers_admits_iff.2 h)]
  rfl

theorem secondsOr_eq_error {default : Nat} {key text : String}
    (h : ¬ ∃ n, SaysSeconds text n ∧ n < UInt64.size) :
    secondsOr default key (some text) = .error (.badSeconds key text) := by
  rw [seconds_admitted_iff, ← Option.isSome_iff_exists, Option.not_isSome_iff_eq_none] at h
  rw [secondsOr, h]

theorem exists_serversOr (h : ¬ Setting.servers.Offends lookup) (default : List String) :
    ∃ servers, serversOr default (lookup serversVariable) = .ok servers := by
  cases htext : lookup serversVariable with
  | none => exact ⟨default, rfl⟩
  | some text =>
    have hne := servers_admits_iff.1 (Setting.admits_of_not_offends h htext)
    exact ⟨servers? text, serversOr_eq_ok_iff.2 ⟨servers?_eq_iff.1 rfl, hne⟩⟩

theorem exists_secondsOr {default : Nat} {key : String} {value : Option String}
    (h : ∀ text, value = some text → ∃ n, SaysSeconds text n ∧ n < UInt64.size) :
    ∃ n, secondsOr default key value = .ok n := by
  cases value with
  | none => exact ⟨default, rfl⟩
  | some text =>
    obtain ⟨n, hn⟩ := h text rfl
    exact ⟨n, secondsOr_eq_ok_iff.2 hn⟩

theorem exists_connectTimeout (h : ¬ Setting.connectTimeout.Offends lookup) :
    ∃ n, secondsOr ({} : Config).connectTimeout connectTimeoutVariable
      (lookup connectTimeoutVariable) = .ok n :=
  exists_secondsOr fun _ htext => Setting.admits_of_not_offends h htext

theorem exists_requestTimeout (h : ¬ Setting.requestTimeout.Offends lookup) :
    ∃ n, secondsOr ({} : Config).requestTimeout requestTimeoutVariable
      (lookup requestTimeoutVariable) = .ok n :=
  exists_secondsOr fun _ htext => Setting.admits_of_not_offends h htext

/-- The root that is configured can be a root, whether it is a text or the default. -/
theorem isRoot_getD (h : ¬ Setting.subjectRoot.Offends lookup) :
    isRoot ((lookup subjectRootVariable).getD Subject.defaultRoot) = true := by
  cases hroot : lookup subjectRootVariable with
  | none => decide
  | some root => exact subjectRoot_admits_iff.1 (Setting.admits_of_not_offends h hroot)

/-! ## All settings -/

/-- Where all settings pass there is a configuration. -/
theorem exists_of_no_offence (h : ∀ s : Setting, ¬ s.Offends lookup) :
    ∃ c, ofLookup lookup = .ok c := by
  obtain ⟨servers, hservers⟩ := exists_serversOr (h .servers) ({} : Config).servers
  obtain ⟨connect, hconnect⟩ := exists_connectTimeout (h .connectTimeout)
  obtain ⟨request, hrequest⟩ := exists_requestTimeout (h .requestTimeout)
  exact ⟨⟨servers, _, connect, request, _⟩, ofLookup_eq_ok_iff.2
    ⟨hservers, rfl, hconnect, hrequest, rfl, isRoot_getD (h .subjectRoot)⟩⟩

/-- The first setting that does not pass is reported. -/
theorem ofLookup_of_firstOffence (h : FirstOffence lookup e) : ofLookup lookup = .error e := by
  obtain ⟨before, s, after, text, hall, hbefore, htext, hnot, rfl⟩ := h
  rw [ofLookup_eq]
  match before with
  | [] =>
    cases hall
    have hservers : lookup serversVariable = some text := htext
    rw [hservers, bind_of_eq_error (serversOr_eq_error hnot)]
  | [_] =>
    cases hall
    have hconnect : lookup connectTimeoutVariable = some text := htext
    obtain ⟨servers, hservers⟩ := exists_serversOr (hbefore .servers (by simp)) ({} : Config).servers
    rw [bind_of_eq_ok hservers, hconnect, bind_of_eq_error (secondsOr_eq_error hnot)]
    rfl
  | [_, _] =>
    cases hall
    have hrequest : lookup requestTimeoutVariable = some text := htext
    obtain ⟨servers, hservers⟩ := exists_serversOr (hbefore .servers (by simp)) ({} : Config).servers
    obtain ⟨connect, hconnect⟩ := exists_connectTimeout (hbefore .connectTimeout (by simp))
    rw [bind_of_eq_ok hservers, bind_of_eq_ok hconnect, hrequest,
      bind_of_eq_error (secondsOr_eq_error hnot)]
    rfl
  | [_, _, _] =>
    cases hall
    have hroot : lookup subjectRootVariable = some text := htext
    obtain ⟨servers, hservers⟩ := exists_serversOr (hbefore .servers (by simp)) ({} : Config).servers
    obtain ⟨connect, hconnect⟩ := exists_connectTimeout (hbefore .connectTimeout (by simp))
    obtain ⟨request, hrequest⟩ := exists_requestTimeout (hbefore .requestTimeout (by simp))
    rw [bind_of_eq_ok hservers, bind_of_eq_ok hconnect, bind_of_eq_ok hrequest, hroot,
      Option.getD_some, if_neg (mt subjectRoot_admits_iff.2 hnot)]
    rfl
  | _ :: _ :: _ :: _ :: before => simp [Setting.all] at hall

/-- Of settings that do not all pass one is the first. -/
theorem exists_firstOffence {s : Setting} (h : s.Offends lookup) : ∃ e, FirstOffence lookup e := by
  classical
  have hmem : s ∈ Setting.all := by cases s <;> decide
  have hsome : (Setting.all.find? fun s => decide (s.Offends lookup)).isSome = true :=
    List.find?_isSome.2 ⟨s, hmem, decide_eq_true h⟩
  obtain ⟨first, hfirst⟩ := Option.isSome_iff_exists.1 hsome
  obtain ⟨hoffends, before, after, hall, hbefore⟩ := List.find?_eq_some_iff_append.1 hfirst
  obtain ⟨text, htext, hnot⟩ := of_decide_eq_true hoffends
  exact ⟨_, before, first, after, text, hall, by simpa using hbefore, htext, hnot, rfl⟩

theorem exists_ofLookup_iff :
    (∃ c, ofLookup lookup = .ok c) ↔ ∀ s : Setting, ¬ s.Offends lookup := by
  refine ⟨fun ⟨c, hc⟩ s hs => ?_, exists_of_no_offence⟩
  obtain ⟨e, he⟩ := exists_firstOffence hs
  rw [ofLookup_of_firstOffence he] at hc
  cases hc

theorem ofLookup_eq_error_iff : ofLookup lookup = .error e ↔ FirstOffence lookup e := by
  refine ⟨fun h => ?_, ofLookup_of_firstOffence⟩
  by_cases hall : ∀ s : Setting, ¬ s.Offends lookup
  · obtain ⟨c, hc⟩ := exists_of_no_offence hall
    rw [h] at hc
    cases hc
  · obtain ⟨s, hs⟩ := not_forall.1 hall
    obtain ⟨e', he'⟩ := exists_firstOffence (Classical.not_not.1 hs)
    obtain rfl := Except.error.inj (h.symm.trans (ofLookup_of_firstOffence he'))
    exact he'

/-- Where all settings pass, the configuration that says what the variables say is the one that is read
of them. -/
theorem reads_iff (h : ∀ s : Setting, ¬ s.Offends lookup) :
    c.Reads lookup ↔ ofLookup lookup = .ok c := by
  rw [ofLookup_eq_ok_iff]
  simp only [serversOr_eq_ok_iff, secondsOr_eq_ok_iff]
  constructor
  · rintro ⟨hservers, hname, hconnect, hrequest, hroot⟩
    refine ⟨?_, hname.symm, hconnect, hrequest, hroot.symm, ?_⟩
    · cases htext : lookup serversVariable with
      | none => simpa only [htext] using hservers
      | some text =>
        simp only [htext] at hservers
        have hne := servers_admits_iff.1 (Setting.admits_of_not_offends (h .servers) htext)
        exact ⟨hservers, servers?_eq_iff.2 hservers ▸ hne⟩
    · rw [hroot]
      exact isRoot_getD (h .subjectRoot)
  · rintro ⟨hservers, hname, hconnect, hrequest, hroot, -⟩
    refine ⟨?_, hname.symm, hconnect, hrequest, hroot.symm⟩
    cases htext : lookup serversVariable with
    | none => simpa only [htext] using hservers
    | some text =>
      simp only [htext] at hservers
      exact hservers.1

/-- The variables are accepted if and only if each of the four that are checked is absent or has an
admitted text. The configuration then says what they say, with the default for every one that is absent;
otherwise the first that does not pass is reported. -/
theorem accepted_or_refused (lookup : String → Option String) :
    ((∃ c, ofLookup lookup = .ok c) ↔ ∀ s : Setting, ¬ s.Offends lookup) ∧
    (∀ c, ofLookup lookup = .ok c ↔ (∀ s : Setting, ¬ s.Offends lookup) ∧ c.Reads lookup) ∧
    (∀ e, ofLookup lookup = .error e ↔ FirstOffence lookup e) ∧
    ∀ (s : Setting) (text : String), ∃ rest,
      (s.error text).toInfrastructureError = ⟨.configuration, s.key ++ rest⟩ := by
  refine ⟨exists_ofLookup_iff, fun c => ⟨fun h => ?_, fun ⟨h, hc⟩ => (reads_iff h).1 hc⟩,
    fun e => ofLookup_eq_error_iff, Setting.toInfrastructureError_error⟩
  have hall := exists_ofLookup_iff.1 ⟨c, h⟩
  exact ⟨hall, (reads_iff hall).2 h⟩

end SubnetRegistry.Config

import SubnetRegistry.Config
import SubnetRegistry.Proofs.Except

/-!
# Configurations part by part

Each part of a configuration comes from one variable or is the default, and a configuration is there if
all parts are.

## Main definitions

* `Config.serversOr` — the servers of a variable.

## Main statements

* `Config.ofLookup_eq_ok_iff` — what is said of the variables by a configuration that was accepted.
-/
namespace SubnetRegistry.Config

def serversOr (default : List String) : Option String → Except ConfigError (List String)
  | none => .ok default
  | some text =>
    match servers? text with
    | [] => .error .noServer
    | servers => .ok servers

variable {lookup : String → Option String} {c : Config}

theorem ofLookup_eq (lookup : String → Option String) : ofLookup lookup = (do
    let defaults : Config := {}
    let servers ← serversOr defaults.servers (lookup serversVariable)
    let connectTimeout ← secondsOr defaults.connectTimeout connectTimeoutVariable
      (lookup connectTimeoutVariable)
    let requestTimeout ← secondsOr defaults.requestTimeout requestTimeoutVariable
      (lookup requestTimeoutVariable)
    let subjectRoot := (lookup subjectRootVariable).getD defaults.subjectRoot
    if isRoot subjectRoot then
      return {
        servers
        clientName := (lookup clientNameVariable).getD defaults.clientName
        connectTimeout
        requestTimeout
        subjectRoot }
    else throw (.badRoot subjectRoot)) := by
  unfold ofLookup serversOr
  cases lookup serversVariable with
  | none => rfl
  | some text =>
    dsimp only
    cases servers? text <;> rfl

/-- A configuration that was accepted, part by part. -/
theorem ofLookup_eq_ok_iff :
    ofLookup lookup = .ok c ↔
      let defaults : Config := {}
      serversOr defaults.servers (lookup serversVariable) = .ok c.servers ∧
        (lookup clientNameVariable).getD defaults.clientName = c.clientName ∧
        secondsOr defaults.connectTimeout connectTimeoutVariable (lookup connectTimeoutVariable) =
          .ok c.connectTimeout ∧
        secondsOr defaults.requestTimeout requestTimeoutVariable (lookup requestTimeoutVariable) =
          .ok c.requestTimeout ∧
        (lookup subjectRootVariable).getD defaults.subjectRoot = c.subjectRoot ∧
        isRoot c.subjectRoot = true := by
  rw [ofLookup_eq]
  constructor
  · intro h
    obtain ⟨servers, hservers, h⟩ := exists_of_bind_eq_ok h
    obtain ⟨connect, hconnect, h⟩ := exists_of_bind_eq_ok h
    obtain ⟨request, hrequest, h⟩ := exists_of_bind_eq_ok h
    dsimp only at h
    split at h
    · next hroot =>
      cases h
      exact ⟨hservers, rfl, hconnect, hrequest, rfl, hroot⟩
    · cases h
  · rintro ⟨hservers, hname, hconnect, hrequest, hroot, hisRoot⟩
    obtain ⟨servers, name, connect, request, root⟩ := c
    subst hname hroot
    rw [bind_of_eq_ok hservers, bind_of_eq_ok hconnect, bind_of_eq_ok hrequest, if_pos hisRoot]
    rfl

/-- A root that was configured can be a root. -/
theorem isRoot_of_ofLookup (h : ofLookup lookup = .ok c) : isRoot c.subjectRoot = true :=
  (ofLookup_eq_ok_iff.1 h).2.2.2.2.2

end SubnetRegistry.Config

import SubnetRegistry.Proofs.Routing
import SubnetRegistry.Proofs.Wire.SetAside

/-!
# Integers never wrap

An integer that is written in a text is read as it is or not at all. Where it stands in the place of an
integer of a subnet, and the text could be read with another one there, the subnet is read with it if it
is in the range of that place, however large it is, and else the text is refused: alone, in a request and
in a reply. A request with an integer that is out of range is answered as invalid, and the store is not
called.

## Main definitions

* `Subnet.Integer.Exact` — what is to come of a text with another integer in a place.

## Main statements

* `Subnet.Integer.read_exactly` — that comes of every text with a subnet.
-/
namespace SubnetRegistry

open Json (Node Fault Gap Step Swap Tracks Yields decode)

section

variable {α : Type} {read : Node → Except Fault α} {g : Gap} {path : List Step} {x z : Int}
  {fits : Prop} {a b : α}

theorem Json.Gap.LiesAt.leads (h : g.LiesAt path x) (z : Int) :
    (Json.Outline.ofBytes (g.fill x)).root.Leads (g.swap x z) path := by
  obtain ⟨read, hat⟩ := h
  exact ⟨read, _, hat⟩

/-- A whole text is read with another integer as its tree is. -/
theorem Json.Gap.LiesAt.decode (hg : g.LiesAt path x) {p : Prop}
    (h : ∀ {node node' : Node}, node.Alike (g.swap x z) 1 node' → node.Leads (g.swap x z) path →
      read node = .ok a → p ∧ Yields fits (read node') b)
    (ha : decode read (g.fill x) = .ok a) : p ∧ Yields fits (decode read (g.fill z)) b := by
  obtain ⟨hroot, htrailing⟩ := hg.alike z
  obtain ⟨hread, hnone⟩ := Json.decode_eq_ok_iff.1 ha
  obtain ⟨hp, hyields⟩ := h hroot (hg.leads z) hread
  refine ⟨hp, hyields.bind ?_⟩
  rw [htrailing.1 hnone]
  rfl

end

namespace Subnet.Integer

variable {α : Type} {i : Integer} {g : Gap} {path : List Step} {x z : Int}

/-- An integer that is in the range of a place can be read. -/
theorem Admits.readable (h : i.Admits z) {w : Swap} (hw : w.Reads z) : w.Readable := by
  obtain ⟨hlow, hhigh⟩ := h
  refine ⟨_, hw.integer ?_ ?_⟩ <;> cases i <;> simp only [least, greatest] at hlow hhigh <;> omega

/-- What is to come of a text with a subnet `s` in which the integer becomes `z`: what comes of the text
with the subnet that has it, or nothing if it is out of range. -/
def Exact (i : Integer) (z : Int) (s : Subnet) (whole : Subnet → α) (result : Except Fault α) : Prop :=
  (i.Admits z → i.get? (i.put z s) = some z ∧ result = .ok (whole (i.put z s))) ∧
    (¬i.Admits z → ∃ fault, result = .error fault)

theorem exact_of_yields {s : Subnet} {whole : Subnet → α} {result : Except Fault α}
    (h : (i.Admits z → i.get? (i.put z s) = some z) ∧ Yields (i.Admits z) result (whole (i.put z s))) :
    i.Exact z s whole result :=
  ⟨fun hz => ⟨h.1 hz, h.2.taken hz⟩, h.2.refused⟩

theorem exact_subnet {s : Subnet} (hg : g.LiesAt i.path x)
    (hs : decode (Subnet.ofNode .text) (g.fill x) = .ok s) :
    i.Exact z s id (decode (Subnet.ofNode .text) (g.fill z)) :=
  exact_of_yields (hg.decode (i.tracks (g.swap_reads x z) · · ·) hs)

theorem exact_create {r : CreateRequest} (hg : g.LiesAt (.field "subnet" 2 :: i.path) x)
    (hr : decode CreateRequest.ofNode (g.fill x) = .ok r) :
    i.Exact z r.subnet (fun s => { r with subnet := s }) (decode CreateRequest.ofNode (g.fill z)) :=
  exact_of_yields (hg.decode (CreateRequest.tracks (i.tracks (g.swap_reads x z)) · · ·) hr)

theorem exact_update {r : UpdateRequest} (hg : g.LiesAt (.field "subnet" 0 :: i.path) x)
    (hr : decode UpdateRequest.ofNode (g.fill x) = .ok r) :
    i.Exact z r.subnet (fun s => { r with subnet := s }) (decode UpdateRequest.ofNode (g.fill z)) :=
  exact_of_yields (hg.decode (UpdateRequest.tracks (i.tracks (g.swap_reads x z)) · · ·) hr)

theorem exact_reply {s : Subnet} (hg : g.LiesAt (.field "subnet" 1 :: i.path) x)
    (hs : decode Response.ofNode (g.fill x) = .ok (.subnet s)) :
    i.Exact z s .subnet (decode Response.ofNode (g.fill z)) := by
  refine exact_of_yields (hg.decode (fun halike hpath hs => ?_) hs)
  exact Response.tracks (i.tracks (g.swap_reads x z)) (·.readable (g.swap_reads x z)) halike hpath hs

/-! ## Requests that arrive as messages -/

/-- A message under the subject of an operation that is answered as invalid, without a call. -/
def Refused (op : Operation) (payload : List UInt8) : Prop :=
  ∃ report, ∀ (service : Service) around root,
    service.answerSubject around root (Subject.ofOperation root op) payload =
      ⟨.invalidRequest report, [], service⟩

theorem refused_of_ofBytes {op : Operation} {payload : List UInt8}
    (h : ∃ e, Request.ofBytes op payload = .error e) : Refused op payload := by
  obtain ⟨e, he⟩ := h
  refine ⟨e.message, fun service around root => ?_⟩
  rw [service.answerSubject_of_ok around payload (Subject.operation?_ofOperation root op),
    Service.answer, Request.ofPayload, he]
  rfl

/-- An integer in the place of one of a subnet is read as it is if it is in the range of the place, and
the text is refused if not: alone, in a request to create or to update, and in a reply. Such a request is
answered as invalid, and the store is not called. -/
theorem read_exactly (i : Integer) (g : Gap) (x z : Int) :
    (∀ s, g.LiesAt i.path x → decode (Subnet.ofNode .text) (g.fill x) = .ok s →
      i.Exact z s id (decode (Subnet.ofNode .text) (g.fill z))) ∧
    (∀ r, g.LiesAt (.field "subnet" 2 :: i.path) x → decode CreateRequest.ofNode (g.fill x) = .ok r →
      i.Exact z r.subnet (fun s => { r with subnet := s }) (decode CreateRequest.ofNode (g.fill z)) ∧
        (¬i.Admits z → Refused .create (g.fill z))) ∧
    (∀ r, g.LiesAt (.field "subnet" 0 :: i.path) x → decode UpdateRequest.ofNode (g.fill x) = .ok r →
      i.Exact z r.subnet (fun s => { r with subnet := s }) (decode UpdateRequest.ofNode (g.fill z)) ∧
        (¬i.Admits z → Refused .update (g.fill z))) ∧
    ∀ s, g.LiesAt (.field "subnet" 1 :: i.path) x → decode Response.ofNode (g.fill x) = .ok (.subnet s) →
      i.Exact z s .subnet (decode Response.ofNode (g.fill z)) := by
  refine ⟨fun s hg hs => exact_subnet hg hs, fun r hg hr => ?_, fun r hg hr => ?_,
    fun s hg hs => exact_reply hg hs⟩
  · have hexact := exact_create (z := z) hg hr
    exact ⟨hexact, fun hz => refused_of_ofBytes (Json.decodeText_of_error (hexact.2 hz) _ _)⟩
  · have hexact := exact_update (z := z) hg hr
    exact ⟨hexact, fun hz => refused_of_ofBytes (Json.decodeText_of_error (hexact.2 hz) _ _)⟩

/-- The text `{"status":{"hw_index":…}}`. -/
def statusGap : Gap where
  before := Json.encoded "\x7b\"status\":\x7b\"hw_index\":".toList
  after := Json.encoded "\x7d\x7d".toList

/-- The text `{"subnet":{"spec":{"v4_prefix":{"addr":…}}}}`. -/
def createGap : Gap where
  before := Json.encoded "\x7b\"subnet\":\x7b\"spec\":\x7b\"v4_prefix\":\x7b\"addr\":".toList
  after := Json.encoded "\x7d\x7d\x7d\x7d".toList

/-- The text `[["",["",null,0,[1,…]]]]`. -/
def updateGap : Gap where
  before := Json.encoded "[[\"\",[\"\",null,0,[1,".toList
  after := Json.encoded "]]]]".toList

/-- The text `{"subnet":{"spec":{"ipv4_virtual_router_ip":…}},"result":"subnet"}`. -/
def replyGap : Gap where
  before := Json.encoded "\x7b\"subnet\":\x7b\"spec\":\x7b\"ipv4_virtual_router_ip\":".toList
  after := Json.encoded "\x7d\x7d,\"result\":\"subnet\"\x7d".toList

/-- The least integer of 32 bits with a sign, the one after the greatest without a sign, the one after the
greatest byte, and one that does not fit 64 bits. -/
theorem read_exactly_at_bounds :
    (statusGap.LiesAt hwIndex.path 7 ∧
      decode (Subnet.ofNode .text) (statusGap.fill 7) = .ok { status := some { hwIndex := 7 } } ∧
      decode (Subnet.ofNode .text) (statusGap.fill (-0x80000000)) =
        .ok { status := some { hwIndex := -0x80000000 } }) ∧
    (createGap.LiesAt (.field "subnet" 2 :: addr.path) 7 ∧
      decode CreateRequest.ofNode (createGap.fill 7) =
        .ok ⟨"", "", { spec := some { v4Prefix := some { addr := 7 } } }⟩ ∧
      Refused .create (createGap.fill 0x100000000)) ∧
    (updateGap.LiesAt (.field "subnet" 0 :: (macByte 1).path) 7 ∧
      decode UpdateRequest.ofNode (updateGap.fill 7) =
        .ok ⟨{ spec := some { virtualRouterMac := [1, 7] } }, none, false⟩ ∧
      Refused .update (updateGap.fill 0x100)) ∧
    (replyGap.LiesAt (.field "subnet" 1 :: routerIp.path) 7 ∧
      decode Response.ofNode (replyGap.fill 7) =
        .ok (.subnet { spec := some { ipv4VirtualRouterIp := 7 } }) ∧
      ∃ fault, decode Response.ofNode (replyGap.fill 0x10000000000000007) = .error fault) := by
  have hstatus : statusGap.LiesAt hwIndex.path 7 := ⟨_, rfl⟩
  have hcreate : createGap.LiesAt (.field "subnet" 2 :: addr.path) 7 := ⟨_, rfl⟩
  have hupdate : updateGap.LiesAt (.field "subnet" 0 :: (macByte 1).path) 7 := ⟨_, rfl⟩
  have hreply : replyGap.LiesAt (.field "subnet" 1 :: routerIp.path) 7 := ⟨_, rfl⟩
  have hread : decode Response.ofNode (replyGap.fill 7) =
      .ok (.subnet { spec := some { ipv4VirtualRouterIp := 7 } }) :=
    eq_ok_of_toOption (by decide +kernel)
  refine ⟨⟨hstatus, rfl, ?_⟩, ⟨hcreate, rfl, ?_⟩, ⟨hupdate, rfl, ?_⟩, hreply, hread, ?_⟩
  · exact (((read_exactly .hwIndex statusGap 7 (-0x80000000)).1 _ hstatus rfl).1 (by decide)).2
  · exact ((read_exactly .addr createGap 7 0x100000000).2.1 _ hcreate rfl).2 (by decide)
  · exact ((read_exactly (.macByte 1) updateGap 7 0x100).2.2.1 _ hupdate rfl).2 (by decide)
  · exact ((read_exactly .routerIp replyGap 7 0x10000000000000007).2.2.2 _ hreply hread).2 (by decide)

end Subnet.Integer

end SubnetRegistry

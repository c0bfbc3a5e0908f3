/-
Nvl/NoForward/Register.lean

`MEM_REGISTER` at the server of the variant that exports the application's own
buffers.

The client leaves the segment id in the first word of the memory handle, which is
an output, and the address as it is; the server attaches the segment and records it
before it calls the device.  Two conventions do not meet.  `xemem_attach_address`
reports a failure as NULL and its caller looks for `MAP_FAILED`; and the entry is
recorded under the address of the request, while later requests look up the segment
id.
-/
import Nvl.NoForward.Pages
import Nvl.StaticLink.System

namespace Nvl.NoForward

open SysLib StaticLink ServerM

/-- The end of the case, with the buffer found. -/
def recordBuffer (s : Server) (cmd : Cmd) (ret : Int) (attr : GniMemRegisterArgs)
    (buffer : UInt64) : ServerM Round := do
  let ok ← malloc .listNode
  let mt := listAddElement s.mt ok attr.address buffer attr.length
  registerWithDevice { s with mt := mt } cmd ret { attr with address := buffer }

/-- The `MEM_REGISTER` case of `main`. -/
def serveMemRegister (s : Server) (cmd : Cmd) (ret : Int) : ServerM Round := do
  let attr := GniMemRegisterArgs.codec.decode cmd.data
  if attr.segmentsCnt = 1 then
    let regMemSeg := attr.memHndl.qword1
    let apid ← xememGet regMemSeg
    if apid ≤ 0 then return .stop s .hcqInvalidHandle
    else
      let serverAligned ← xememAttach apid (attachBytes attr.address attr.length)
      let buffer := xememAttachAddress attr.address serverAligned
      if buffer = mapFailed then
        xememRelease apid
        return .stop s (.returned (-1))
      else recordBuffer s cmd ret attr buffer
  else registerWithDevice s cmd ret attr

section Contract

variable (env : (o : ServerCall) → o.Ans) (s : Server) (cmd : Cmd) (ret : Int)

/-- What the request asks for. -/
def request : GniMemRegisterArgs := GniMemRegisterArgs.codec.decode cmd.data

/-- The segment the client exported. -/
def exportedSegid : UInt64 := (request cmd).memHndl.qword1

/-- The answer to `xemem_get`. -/
def permit : Int := env (.xememGet (exportedSegid cmd))

/-- The answer to `xemem_attach`, were it called. -/
def attachedAt : UInt64 :=
  env (.xememAttach (permit env cmd) (attachBytes (request cmd).address (request cmd).length))

/-- The client's buffer in what is attached. -/
def attachedBuffer : UInt64 := attachedAt env cmd + attachOffset (request cmd).address

/-- A failed attach registers nothing, and a successful one makes the buffer known under
the segment id that the client exported. -/
structure RegistersAttached : Prop where
  failed : permit env cmd ≤ 0 ∨ attachedAt env cmd = mapFailed →
    (0 < permit env cmd →
      ⟨.xememRelease (permit env cmd), ()⟩ ∈ ((serveMemRegister s cmd ret).exec env).2) ∧
    ((serveMemRegister s cmd ret).exec env).1.server.mt = s.mt ∧
    ∀ c r, ⟨.ioctl c, r⟩ ∉ ((serveMemRegister s cmd ret).exec env).2
  attached : 0 < permit env cmd → attachedAt env cmd ≠ mapFailed →
    ∃ p, ((serveMemRegister s cmd ret).exec env).1.server.mt = s.mt ++ [p] ∧
      p.segid = exportedSegid cmd ∧
      listFindVaddrBySegid ((serveMemRegister s cmd ret).exec env).1.server.mt (exportedSegid cmd)
        = attachedBuffer env cmd

variable {env s cmd ret}

/-! ### The three ends of the case -/

theorem exec_of_refused (hcnt : (request cmd).segmentsCnt = 1) (hget : permit env cmd ≤ 0) :
    (serveMemRegister s cmd ret).exec env
      = (.stop s .hcqInvalidHandle, [⟨.xememGet (exportedSegid cmd), permit env cmd⟩]) := by
  rw [request] at hcnt
  rw [permit, exportedSegid, request] at hget
  simp [serveMemRegister, hcnt, hget, permit, exportedSegid, request]

/-- The buffer as the case computes it, NULL after a failed attach. -/
def foundBuffer (env : (o : ServerCall) → o.Ans) (cmd : Cmd) : UInt64 :=
  xememAttachAddress (request cmd).address (attachedAt env cmd)

/-- The one way to the clean-up: the attach has succeeded and the sum is `MAP_FAILED`. -/
theorem exec_of_found_mapFailed (hcnt : (request cmd).segmentsCnt = 1)
    (hget : ¬ permit env cmd ≤ 0) (hbuf : foundBuffer env cmd = mapFailed) :
    ((serveMemRegister s cmd ret).exec env).1 = .stop s (.returned (-1)) := by
  rw [request] at hcnt
  rw [permit, exportedSegid, request] at hget
  rw [foundBuffer, attachedAt, permit, exportedSegid, request] at hbuf
  simp [serveMemRegister, hcnt, hget, hbuf]

/-- The buffer is recorded and the device called, whatever it answers. -/
theorem recordBuffer_exec (env : (o : ServerCall) → o.Ans) (s : Server) (cmd : Cmd) (ret : Int)
    (attr : GniMemRegisterArgs) (buffer : UInt64) :
    ((recordBuffer s cmd ret attr buffer).exec env).1.server.mt
        = listAddElement s.mt (env (.malloc .listNode)) attr.address buffer attr.length ∧
      ∃ c r, ⟨.ioctl c, r⟩ ∈ ((recordBuffer s cmd ret attr buffer).exec env).2 := by
  refine ⟨?_, _, _, List.mem_cons_of_mem _ List.mem_cons_self⟩
  have h (s : Server) (a : GniMemRegisterArgs) :
      (registerWithDevice s cmd ret a).Returns fun r => r.server.mt = s.mt := by
    simp [registerWithDevice, Round.server]
  exact (h _ _).exec env

/-- Otherwise that is how the case ends. -/
theorem exec_of_found (s : Server) (ret : Int) (hcnt : (request cmd).segmentsCnt = 1)
    (hget : ¬ permit env cmd ≤ 0) (hbuf : foundBuffer env cmd ≠ mapFailed) :
    ∃ tr, (serveMemRegister s cmd ret).exec env
      = (((recordBuffer s cmd ret (request cmd) (foundBuffer env cmd)).exec env).1,
          tr ++ ((recordBuffer s cmd ret (request cmd) (foundBuffer env cmd)).exec env).2) := by
  rw [request] at hcnt
  rw [permit, exportedSegid, request] at hget
  rw [foundBuffer, attachedAt, permit, exportedSegid, request] at hbuf
  refine ⟨[⟨.xememGet (exportedSegid cmd), permit env cmd⟩, ⟨.xememAttach (permit env cmd)
    (attachBytes (request cmd).address (request cmd).length), attachedAt env cmd⟩], ?_⟩
  simp [serveMemRegister, hcnt, hget, hbuf, permit, exportedSegid, request, foundBuffer, attachedAt]

/-- An entry appended under a segment id is found by it, unless an earlier one is. -/
theorem listFindVaddrBySegid_append_singleton {mt : MemsegList} {p : XpmemSeg} :
    listFindVaddrBySegid (mt ++ [p]) p.segid = p.address ↔
      listFindVaddrBySegid mt p.segid = p.address ∨ ∀ q ∈ mt, q.segid ≠ p.segid := by
  induction mt with
  | nil => simp [listFindVaddrBySegid]
  | cons q mt ih =>
      by_cases hq : q.segid = p.segid
      · simp [listFindVaddrBySegid, hq]
      · simp [listFindVaddrBySegid, hq, ih]

/-- Whether a recorded buffer is known under `segid` afterwards. -/
theorem recordedUnder_iff {mt : MemsegList} {ok : Bool} {key buffer len segid : UInt64} :
    (∃ p, listAddElement mt ok key buffer len = mt ++ [p] ∧ p.segid = segid ∧
        listFindVaddrBySegid (mt ++ [p]) segid = buffer) ↔
      ok = true ∧ key = segid ∧
        (listFindVaddrBySegid mt segid = buffer ∨ ∀ q ∈ mt, q.segid ≠ segid) := by
  constructor
  · rintro ⟨p, hadd, rfl, hfind⟩
    cases ok with
    | false => exact absurd (congrArg List.length hadd) (by simp [listAddElement])
    | true =>
        obtain rfl : ⟨key, buffer, len⟩ = p := by
          simpa [listAddElement] using hadd
        exact ⟨rfl, rfl, listFindVaddrBySegid_append_singleton.mp hfind⟩
  · rintro ⟨rfl, rfl, hfind⟩
    refine ⟨⟨key, buffer, len⟩, rfl, rfl, ?_⟩
    exact listFindVaddrBySegid_append_singleton.mpr hfind

/-! ### When the contract holds -/

/-- With a permit but no attachment: the buffer found is NULL, not `MAP_FAILED`, and the
case goes on with it. -/
theorem not_registersAttached_of_failed (hcnt : (request cmd).segmentsCnt = 1)
    (hget : ¬ permit env cmd ≤ 0) (hfail : attachedAt env cmd = mapFailed) :
    ¬ RegistersAttached env s cmd ret := by
  intro h
  have hbuf : foundBuffer env cmd ≠ mapFailed := by
    rw [foundBuffer, xememAttachAddress, if_pos hfail]
    decide
  obtain ⟨tr, hexec⟩ := exec_of_found s ret hcnt hget hbuf
  obtain ⟨-, c, r, hmem⟩ := recordBuffer_exec env s cmd ret (request cmd) (foundBuffer env cmd)
  refine (h.failed (.inr hfail)).2.2 c r ?_
  rw [hexec]
  exact List.mem_append_right _ hmem

theorem registersAttached_of_refused (hcnt : (request cmd).segmentsCnt = 1)
    (hget : permit env cmd ≤ 0) : RegistersAttached env s cmd ret where
  failed := by
    intro _
    rw [exec_of_refused hcnt hget]
    refine ⟨fun hpos => absurd hpos (not_lt.mpr hget), rfl, fun c r hmem => ?_⟩
    cases List.mem_singleton.mp hmem
  attached := fun hpos => absurd hpos (not_lt.mpr hget)

theorem registersAttached_of_attached (hcnt : (request cmd).segmentsCnt = 1)
    (hget : ¬ permit env cmd ≤ 0) (hok : attachedAt env cmd ≠ mapFailed) :
    RegistersAttached env s cmd ret ↔ attachedBuffer env cmd ≠ mapFailed ∧
      env (.malloc .listNode) = true ∧ (request cmd).address = exportedSegid cmd ∧
        (listFindVaddrBySegid s.mt (exportedSegid cmd) = attachedBuffer env cmd ∨
          ∀ q ∈ s.mt, q.segid ≠ exportedSegid cmd) := by
  have hfound : foundBuffer env cmd = attachedBuffer env cmd := by
    rw [foundBuffer, xememAttachAddress, if_neg hok, attachedBuffer]
  have hpos : 0 < permit env cmd := not_le.mp hget
  have hiff : RegistersAttached env s cmd ret ↔ ∃ p,
      ((serveMemRegister s cmd ret).exec env).1.server.mt = s.mt ++ [p] ∧
        p.segid = exportedSegid cmd ∧
        listFindVaddrBySegid (s.mt ++ [p]) (exportedSegid cmd) = attachedBuffer env cmd := by
    constructor
    · intro h
      obtain ⟨p, hmt, hseg, hfind⟩ := h.attached hpos hok
      exact ⟨p, hmt, hseg, hmt ▸ hfind⟩
    · rintro ⟨p, hmt, hseg, hfind⟩
      exact ⟨fun h => absurd h (not_or_intro hget hok), fun _ _ => ⟨p, hmt, hseg, hmt ▸ hfind⟩⟩
  rw [hiff]
  by_cases hbuf : attachedBuffer env cmd = mapFailed
  · -- taken for a failure: nothing is recorded
    refine iff_of_false ?_ fun h => h.1 hbuf
    rintro ⟨p, hmt, -⟩
    rw [exec_of_found_mapFailed hcnt hget (hfound.trans hbuf)] at hmt
    exact absurd (congrArg List.length hmt) (by simp [Round.server])
  · obtain ⟨tr, hexec⟩ := exec_of_found s ret hcnt hget (hfound ▸ hbuf)
    have hmt := (recordBuffer_exec env s cmd ret (request cmd) (foundBuffer env cmd)).1
    rw [hexec, hmt, hfound, recordedUnder_iff]
    exact ⟨fun h => ⟨hbuf, h⟩, fun h => h.2⟩

/-- **When a registration is sound.**  A request for one segment registers nothing on a
failure and makes the buffer known under its segment id otherwise, exactly if there is no
permit, or everything works, the address happens to be the segment id, and no earlier
entry has that id with another address. -/
theorem registersAttached_iff (hcnt : (request cmd).segmentsCnt = 1) :
    RegistersAttached env s cmd ret ↔ permit env cmd ≤ 0 ∨
      attachedAt env cmd ≠ mapFailed ∧ attachedBuffer env cmd ≠ mapFailed ∧
        env (.malloc .listNode) = true ∧ (request cmd).address = exportedSegid cmd ∧
          (listFindVaddrBySegid s.mt (exportedSegid cmd) = attachedBuffer env cmd ∨
            ∀ q ∈ s.mt, q.segid ≠ exportedSegid cmd) := by
  by_cases hget : permit env cmd ≤ 0
  · exact iff_of_true (registersAttached_of_refused hcnt hget) (.inl hget)
  · rw [or_iff_right hget]
    by_cases hok : attachedAt env cmd = mapFailed
    · exact iff_of_false (not_registersAttached_of_failed hcnt hget hok) fun h => h.1 hok
    · rw [registersAttached_of_attached hcnt hget hok]
      exact ⟨fun h => ⟨hok, h⟩, fun h => h.2⟩

end Contract

/-- A request to register 256 bytes at an address, exported as segment 21. -/
def registerAt (address : UInt64) : Cmd where
  id := 1
  code := gniIocMemRegister.toUInt64
  data := GniMemRegisterArgs.codec.encode { (default : GniMemRegisterArgs) with
    segmentsCnt := 1, address := address, length := 0x100, memHndl := ⟨21, 0⟩ }

/-- A buffer whose address is the segment id. -/
theorem registersAttached_iff_sameWord :
    RegistersAttached (calmServer 0x20000 0) freshWorld.server (registerAt 21) 1 := by
  refine (registersAttached_iff (by decide)).mpr (.inr ⟨?_, ?_, rfl, ?_, .inr nofun⟩)
  · decide
  · decide
  · decide

/-- When the attach fails, an entry with a NULL buffer is added under the client's
address, and the device is asked to register NULL; when it succeeds, the entry is not
found under the segment id. -/
theorem registersAttached_fails :
    (((serveMemRegister freshWorld.server (registerAt 0x1000) 1).exec
        (calmServer mapFailed 0)).1.server.mt = [⟨0x1000, 0, 0x100⟩] ∧
      ¬ RegistersAttached (calmServer mapFailed 0) freshWorld.server (registerAt 0x1000) 1) ∧
    (listFindVaddrBySegid ((serveMemRegister freshWorld.server (registerAt 0x1000) 1).exec
        (calmServer 0x20000 0)).1.server.mt 21 = notFound ∧
      ¬ RegistersAttached (calmServer 0x20000 0) freshWorld.server (registerAt 0x1000) 1) := by
  refine ⟨⟨by decide, fun h => ?_⟩, ⟨by decide, fun h => ?_⟩⟩
  · have hmt := (h.failed (.inr (by decide))).2.1
    exact absurd hmt (by decide)
  · obtain ⟨p, -, -, hfind⟩ := h.attached (by decide) (by decide)
    exact absurd hfind (by decide)

end Nvl.NoForward

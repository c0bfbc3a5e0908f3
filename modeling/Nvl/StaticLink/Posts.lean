/-
Nvl/StaticLink/Posts.lean

`POST_RDMA` over whole runs, seen from both ends.

At the device: the posts of the application arrive one by one, in order, each
with its own descriptor (`posts_arrive`).  The message is a descriptor and an
argument structure laid end to end without framing, and the server unpacks it
into variables that it uses for every command of the run; both structures have a
fixed size, so the two halves come apart where they were joined.

At the client: a descriptor is edited in place while it is sent and restored
afterwards, and what is put into it is the answer of a lookup.  Entries of the
list are only appended and the lookup takes the first match, so an address that
was found once is found in the same entry ever after (`repost_stable`).
-/
import Mathlib.Data.List.Forall2
import Nvl.StaticLink.Translation

namespace Nvl.StaticLink

open SysLib

/-! ### Posts at the device -/

/-- The arguments of a post with the descriptor they point to. -/
abbrev Post : Type := GniPostRdmaArgs × GniPostDescriptor

/-- The post that a request makes. -/
def Event.post (e : Event) : Option Post :=
  match e.request with
  | .postRdma a desc => some (a, desc)
  | _ => none

/-- The post that a call on the device makes. -/
def DeviceCall.post : DeviceCall → Option Post
  | .postRdma a desc => some (a, desc)
  | _ => none

/-- The posts that have reached the device, in order. -/
def World.devicePosts (w : World) : List Post := w.deviceLog.filterMap DeviceCall.post

/-- The post `seen` on the device is the post `sent` of the application: the same
descriptor but for `local_addr`, and the same arguments but for `post_desc`,
which is the address `ptr` of the server's copy of that descriptor. -/
structure Arrives (ptr : UInt64) (sent seen : Post) : Prop where
  args : seen.1 = { sent.1 with postDesc := ptr }
  desc : ∃ addr, seen.2 = { sent.2 with localAddr := addr }

variable {w : World} {e : Event} {es : List Event}

/-- The server's copy of the descriptor stays where it is. -/
theorem postDescPtr_ioctl (hl : w.Live) (hs : w.Served e) :
    (w.ioctl e).1.server.postDescPtr = w.server.postDescPtr := by
  rw [(ioctl_served hl hs).server]
  obtain ⟨d, r, clientEnv, serverEnv⟩ := e
  cases r with
  | memRegister a =>
      show (registered w.server serverEnv _).postDescPtr = _
      rw [registered]
      split <;> rfl
  | _ => rfl

/-- One request: a post shows the device one post, any other request none. -/
theorem devicePosts_ioctl (hl : w.Live) (hs : w.Served e) :
    ∃ seen, (w.ioctl e).1.devicePosts = w.devicePosts ++ seen ∧
      List.Forall₂ (Arrives w.server.postDescPtr) e.post.toList seen := by
  have hlog := (ioctl_served hl hs).device
  refine ⟨(w.reply e).device.toList.filterMap DeviceCall.post, ?_, ?_⟩
  · rw [World.devicePosts, hlog, List.filterMap_append]
    rfl
  · obtain ⟨d, r, clientEnv, serverEnv⟩ := e
    cases r with
    | postRdma a desc => exact .cons ⟨rfl, _, rfl⟩ .nil
    | _ => exact .nil

theorem devicePosts_run (hl : w.Live) (hes : ∀ e ∈ es, ∀ w : World, w.Served e) :
    ∃ seen, (w.run es).devicePosts = w.devicePosts ++ seen ∧
      List.Forall₂ (Arrives w.server.postDescPtr) (es.filterMap Event.post) seen := by
  induction es generalizing w with
  | nil => exact ⟨[], (List.append_nil _).symm, .nil⟩
  | cons e es ih =>
      have he := hes e List.mem_cons_self w
      obtain ⟨first, hfirst, harrive⟩ := devicePosts_ioctl hl he
      obtain ⟨rest, hrest, harrives⟩ := ih (ioctl_served hl he).live
        fun e' he' => hes e' (List.mem_cons_of_mem _ he')
      have hposts : (e :: es).filterMap Event.post = e.post.toList ++ es.filterMap Event.post := by
        rcases hp : e.post with - | p <;> simp [hp]
      refine ⟨first ++ rest, ?_, ?_⟩
      · rw [World.run_cons, hrest, hfirst, List.append_assoc]
      · rw [postDescPtr_ioctl hl he] at harrives
        rw [hposts]
        exact List.rel_append harrive harrives

/-- **Posts arrive intact, once and in order**, in any mix of requests that the
server has a case for. -/
theorem posts_arrive (hw : w.Initial) (hok : ∀ e ∈ es, CallsSucceed e)
    (hcase : ∀ e ∈ es, e.HasCase) :
    (w.run es).waiting = none ∧
      List.Forall₂ (Arrives w.server.postDescPtr) (es.filterMap Event.post)
        (w.run es).devicePosts := by
  have hes : ∀ e ∈ es, ∀ w : World, w.Served e := fun e he _ => (hok e he).served (hcase e he)
  obtain ⟨seen, hseen, harrive⟩ := devicePosts_run hw.live hes
  have hnone : w.devicePosts = [] := by
    rw [World.devicePosts, World.deviceLog, hw.noLog]
    rfl
  refine ⟨(run_live_of_served hw.live hes).notWaiting, ?_⟩
  rw [hseen, hnone]
  exact harrive

/-- Two posts of different descriptors with a registration between them. -/
theorem posts_arrive_twice :
    List.Forall₂ (Arrives 0x7000)
      ([postEvent 5 0x1000, registerEvent 6 0x1100 0x100 0x30000, postEvent 6 0x1100].filterMap
        Event.post)
      (freshWorld.run [postEvent 5 0x1000, registerEvent 6 0x1100 0x100 0x30000,
        postEvent 6 0x1100]).devicePosts := by
  refine (posts_arrive freshWorld_initial ?_ ?_).2
  · intro e he
    simp only [List.mem_cons, List.not_mem_nil, or_false] at he
    rcases he with rfl | rfl | rfl <;> exact callsSucceed_calm _ _ _ (by decide)
  · intro e he
    simp only [List.mem_cons, List.not_mem_nil, or_false] at he
    rcases he with rfl | rfl | rfl <;> trivial

/-! ### Posting a descriptor again -/

/-- One ioctl as the client meets it: the request, and what every call on the
outside answers, the queue included. -/
structure Issue where
  request : Request
  env : (o : ClientCall) → o.Ans

namespace Issue

variable (x : Issue) (c : Client)

/-- `handle_ioctl`: the client and the caller's structures, and the calls made. -/
def exec : (Client × Request) × Prog.Trace ClientCall ClientCall.Ans :=
  (handleIoctl c x.request).exec x.env

/-- The client afterwards. -/
def after : Client := (x.exec c).1.1

/-- The caller's structures afterwards. -/
def returned : Request := (x.exec c).1.2

/-- The messages sent to the server. -/
def messages : List (UInt64 × Bytes) :=
  (x.exec c).2.filterMap fun
    | ⟨.hcqCmdIssue code data, _⟩ => some (code, data)
    | _ => none

end Issue

/-- The client after a sequence of ioctls. -/
def clientRun (c : Client) (xs : List Issue) : Client := xs.foldl (fun c x => x.after c) c

/-- The address passes the range test of an entry.  For entries that do not wrap
this is membership in a registered range (`registered_iff`). -/
def Registered (mt : MemsegList) (addr : UInt64) : Prop := ∃ p ∈ mt, p.covers addr = true

theorem registered_iff {mt : MemsegList} (h : ∀ p ∈ mt, Exportable p.address p.length)
    (addr : UInt64) : Registered mt addr ↔ ∃ p ∈ mt, addr.toNat ∈ p.range := by
  constructor
  · rintro ⟨p, hp, hcov⟩
    exact ⟨p, hp, (XpmemSeg.covers_iff (h p hp) addr).mp hcov⟩
  · rintro ⟨p, hp, hmem⟩
    exact ⟨p, hp, (XpmemSeg.covers_iff (h p hp) addr).mpr hmem⟩

/-- Whatever is requested and answered, entries of the list are only appended. -/
theorem packArgs_appends (c : Client) (r : Request) :
    (packArgs c r).Returns fun x => c.mt <+: x.1.mt := by
  cases r with
  | nicSetattr a =>
      refine (packNicSetattr_client c a).mono fun x hx => ?_
      exact ⟨[], by rw [hx, List.append_nil]⟩
  | memRegister a =>
      intro segid ok cmd ptr done reply
      show c.mt <+: listAddElement c.mt ok segid a.address a.length
      rw [listAddElement]
      split
      · exact List.prefix_append _ _
      · exact List.prefix_rfl
  | _ => simp [packArgs, allgather, pmiFinalize, pmiBarrier]

/-- The list of a client that goes on is an extension of the one it had. -/
theorem mt_prefix_clientRun (c : Client) (xs : List Issue) : c.mt <+: (clientRun c xs).mt := by
  induction xs generalizing c with
  | nil => exact List.prefix_rfl
  | cons x xs ih =>
      have hhandle : (handleIoctl c x.request).Returns fun y => c.mt <+: y.1.mt :=
        .bind (packArgs_appends c x.request) fun y hy => hy
      have hstep : c.mt <+: (x.after c).mt := hhandle.exec x.env
      exact hstep.trans (ih (x.after c))

/-- An address that was found once is found in the same entry ever after. -/
theorem listFindSegidByVaddr_of_prefix {mt mt' : MemsegList} {addr : UInt64}
    (h : Registered mt addr) (hpre : mt <+: mt') :
    listFindSegidByVaddr mt' addr = listFindSegidByVaddr mt addr := by
  obtain ⟨added, rfl⟩ := hpre
  exact listFindSegidByVaddr_append_of_covers h added

/-- The message of a post: the descriptor, with a segment id for its address, and the
arguments. -/
def postMessage (segid : UInt64) (a : GniPostRdmaArgs) (desc : GniPostDescriptor) :
    UInt64 × Bytes :=
  (gniIocPostRdma.toUInt64, GniPostDescriptor.codec.encode { desc with localAddr := segid }
    ++ GniPostRdmaArgs.codec.encode a)

section Post

variable (c : Client) (env : (o : ClientCall) → o.Ans) (a : GniPostRdmaArgs)
  (desc : GniPostDescriptor)

/-- The descriptor and the arguments of a post are restored, wherever it points. -/
theorem returned_postRdma : Issue.returned ⟨.postRdma a desc, env⟩ c = .postRdma a desc := rfl

theorem messages_postRdma : Issue.messages ⟨.postRdma a desc, env⟩ c
    = [postMessage (listFindSegidByVaddr c.mt desc.localAddr) a desc] := rfl

end Post

/-- **Reposting is stable.**  From any client state, over any later requests with
any answers, each post hands the caller's structures back as they were, and a
descriptor whose address was registered when it was first posted is sent in one
message, the same every time. -/
theorem repost_stable {c : Client} {a : GniPostRdmaArgs} {desc : GniPostDescriptor}
    (h : Registered c.mt desc.localAddr) (env : (o : ClientCall) → o.Ans) (xs : List Issue) :
    (∀ ys x zs a' desc', xs = ys ++ x :: zs → x.request = .postRdma a' desc' →
      x.returned (clientRun c ys) = .postRdma a' desc') ∧
    ∃ segid, Issue.messages ⟨.postRdma a desc, env⟩ c = [postMessage segid a desc] ∧
      ∀ env', Issue.returned ⟨.postRdma a desc, env'⟩ (clientRun c xs) = .postRdma a desc ∧
        Issue.messages ⟨.postRdma a desc, env'⟩ (clientRun c xs)
          = [postMessage segid a desc] := by
  constructor
  · rintro ys ⟨r, env'⟩ zs a' desc' - rfl
    exact returned_postRdma _ env' a' desc'
  · refine ⟨listFindSegidByVaddr c.mt desc.localAddr, messages_postRdma c env a desc,
      fun env' => ⟨returned_postRdma _ env' a desc, ?_⟩⟩
    rw [messages_postRdma, listFindSegidByVaddr_of_prefix h (mt_prefix_clientRun c xs)]

/-- A later registration of an overlapping range does not change the message. -/
theorem repost_stable_overlap :
    ∃ segid, Issue.messages ⟨.postRdma default
        { (default : GniPostDescriptor) with localAddr := 0x1010 }, calmClient 0⟩
        ⟨[⟨5, 0x1000, 0x100⟩], 0, 0, 120, 121⟩
        = [postMessage segid default { (default : GniPostDescriptor) with localAddr := 0x1010 }] ∧
      Issue.messages ⟨.postRdma default
        { (default : GniPostDescriptor) with localAddr := 0x1010 }, calmClient 0⟩
        (clientRun ⟨[⟨5, 0x1000, 0x100⟩], 0, 0, 120, 121⟩ [⟨.memRegister
          { (default : GniMemRegisterArgs) with address := 0x1010, length := 0x20 },
          calmClient 6⟩])
        = [postMessage segid default
          { (default : GniPostDescriptor) with localAddr := 0x1010 }] := by
  have h : Registered [⟨5, 0x1000, 0x100⟩] 0x1010 := ⟨_, List.mem_cons_self, by decide⟩
  obtain ⟨segid, hfirst, hlater⟩ :=
    (@repost_stable ⟨[⟨5, 0x1000, 0x100⟩], 0, 0, 120, 121⟩ default
      { (default : GniPostDescriptor) with localAddr := 0x1010 } h (calmClient 0) _).2
  exact ⟨segid, hfirst, (hlater _).2⟩

end Nvl.StaticLink

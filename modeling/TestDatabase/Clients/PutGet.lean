import Mathlib.Data.List.Basic
import TestDatabase.Lib.FairSchedule
import TestDatabase.Clients.PutTarget

/-!
# DBRrecordTypesClient

The program makes eighteen calls of `putGet`.  Each creates a client for a channel, waits some
two seconds for the channel, its get and its put to connect, puts a value, waits for `putDone`,
gets, and writes to the file what it got.  It writes so, too, if the client did not connect or
something threw.

`main` is one thread and the callbacks are another.  `channelStateChange` sets its flag before
it creates the objects, one after the other, and an object may be connected before
`channelStateChange` returns.  The connect callbacks do not look at their status, so that a call
on an object that failed to connect is made all the same, and throws.

Before the first call `main` gets its `PvaClient` and creates a client that is never used.  No
`try` is around these two, and an exception there ends the program with nothing written.

What the client library and the server do is left open, but that an object is connected only if
it has been created, and that `putDone` is called at most once for a put that was sent, and for
no other.  The callbacks of the client that is never used are left out, and so is the data got.

## Main definitions

* `requests` — the calls that `main` makes.
* `Site` — what the server has: structures and their contents.
* `World.step`, `DBRrecordTypesClient` — the steps of the two threads, and the event machine.
* `Entry` — what is written for a call, and what has become of its put.

## Main results

* `World.step_effect` — what a step can do.
* `entries_tell` — **each call is answered for once, in order, and tells what became of its put.**
* `putGets_end_iff` — **`main` answers for all calls exactly if its first two calls return and each
  put that is sent is answered.**
-/

namespace TestDatabase.PutGet

open TimeMany PutTarget

/-! ### The program -/

/-- The arguments of a call of `putGet`. -/
structure Request where
  channelName : String
  request : String
  value : String
  deriving DecidableEq, Repr

/-- The calls that `main` makes. -/
def requests : List Request := [
  ⟨"DBRint8", "value", "127"⟩,
  ⟨"DBRuint8", "value[dbtype=DBF_UCHAR]", "128"⟩,
  ⟨"DBRint16", "value", "32767"⟩,
  ⟨"DBRuint16", "value[dbtype=DBF_USHORT]", "32768"⟩,
  ⟨"DBRint32", "value", "2147483647"⟩,
  ⟨"DBRuint32", "value[dbtype=DBF_ULONG]", "4294967295"⟩,
  ⟨"DBRint64", "value[dbtype=DBF_INT64]", "4294967296000000001"⟩,
  ⟨"DBRuint64", "value[dbtype=DBF_UINT64]", "4294967296000000001"⟩,
  ⟨"DBRint8Array", "value", "127 -128"⟩,
  ⟨"DBRuint8Array", "value[dbtype=DBF_UCHAR]", "0 128"⟩,
  ⟨"DBRint16Array", "value", "32767 -32768"⟩,
  ⟨"DBRuint16Array", "value[dbtype=DBF_USHORT]", "0 32768"⟩,
  ⟨"DBRint32Array", "value", "2147483647 -2147483648"⟩,
  ⟨"DBRuint32Array", "value[dbtype=DBF_ULONG]", "0 4294967295"⟩,
  ⟨"DBRint64Array", "value[dbtype=DBF_INT64]", "4294967296000000001 -4294967296000000001"⟩,
  ⟨"DBRuint64Array", "value[dbtype=DBF_UINT64]", "0 4294967296000000001"⟩,
  ⟨"DBRstringArray", "value", "a b c d e f"⟩,
  ⟨"DBRlongstring.VAL$", "value[pvtype=pvString]",
    "1234567892012345678930123456789401234567895012345678960"⟩]

/-- The flags of a client, and whether its objects have been created. -/
structure ClientGetPut where
  channelConnected : Bool := false
  getConnected : Bool := false
  putConnected : Bool := false
  pvaClientGet : Bool := false
  pvaClientPut : Bool := false
  deriving DecidableEq, Repr

/-- The flags that `putGet` waits for. -/
inductive Flag
  | channel
  | get
  | put
  deriving DecidableEq, Repr

/-- An object that `channelStateChange` creates. -/
inductive Piece
  | createGet
  | createPut
  deriving DecidableEq, Repr

namespace ClientGetPut

/-- `isConnected`, `isGetConnected` and `isPutConnected`. -/
def isConnected (c : ClientGetPut) : Flag → Bool
  | .channel => c.channelConnected
  | .get => c.getConnected
  | .put => c.putConnected

/-- One piece of `channelStateChange`: create the object, if there is none, and connect it. -/
def create (c : ClientGetPut) : Piece → ClientGetPut
  | .createGet => { c with pvaClientGet := true }
  | .createPut => { c with pvaClientPut := true }

end ClientGetPut

/-- What `putGet` writes to the file. -/
inductive Report
  | didNotConnect
  | pvResult
  | exception
  deriving DecidableEq, Repr

/-- What is written for a call, and whether its put has been sent and answered by then. -/
structure Entry where
  request : Request
  report : Report
  sent : Bool
  answered : Bool
  deriving DecidableEq, Repr

/-- What the server has for each call: the structure that is put to, and its contents. -/
structure Site (α : Type) where
  convert : Convert α
  pvStructure : Request → List (String × PVField)
  contents : Request → List String → α

/-- `put()`, up to `issuePut()`. -/
def Site.put {α : Type} (site : Site α) (r : Request) : PutEnd α :=
  PutProgram.DBRrecordTypesClient.put {} site.convert (site.pvStructure r) (site.contents r)
    r.value.toList

/-- Where `main` is in a call of `putGet`. -/
inductive MainAt
  /-- In `PvaClient::get`, before the first call. -/
  | opening
  /-- In `ClientGetPut::create`, before the first call. -/
  | creatingFirst
  | creating
  /-- In the wait loop, asking for a flag. -/
  | asking (flag : Flag) (nwait : ℕ)
  | sleeping (nwait : ℕ)
  | putting
  /-- In `waitForCallback.wait()`. -/
  | waiting
  | getting
  /-- In `pvaClientGet->get()`. -/
  | calling
  /-- An object that does not exist has been used, or a field that does not. -/
  | crashed
  /-- An exception that nothing catches has ended the program. -/
  | terminated
  deriving DecidableEq, Repr

/-- The client of the call under way has been created. -/
def MainAt.hasClient : MainAt → Bool
  | opening => false
  | creatingFirst => false
  | creating => false
  | terminated => false
  | _ => true

/-- `main` in its calls, and the client of the call under way. -/
structure World where
  /-- The calls not answered for, the one under way first. -/
  rest : List Request := requests
  main : MainAt := .opening
  client : ClientGetPut := {}
  /-- What `channelStateChange` has still to do. -/
  pieces : List Piece := []
  sent : Bool := false
  answered : Bool := false
  /-- The state of `waitForCallback`. -/
  signalled : Bool := false
  entries : List Entry := []
  deriving Repr

inductive Event
  /-- `main` takes its next step. -/
  | main
  /-- `channelStateChange` begins: it sets its flag. -/
  | channelStateChange (isConnected : Bool)
  /-- `channelStateChange` goes on. -/
  | piece
  | channelGetConnect
  | channelPutConnect
  | putDone
  /-- The call of the library that `main` makes returns. -/
  | returns
  /-- It throws. -/
  | throws
  deriving DecidableEq, Repr

namespace World

/-- End a call of `putGet`, and with it its client. -/
def write (w : World) (report : Report) : World :=
  match w.rest with
  | [] => w
  | r :: rest =>
    { rest, main := .creating, entries := w.entries ++ [⟨r, report, w.sent, w.answered⟩] }

variable {α : Type}

/-- The next step of `main`. -/
def mainStep (site : Site α) (w : World) : Option World :=
  match w.rest with
  | [] => none
  | r :: _ =>
    match w.main with
    | .opening => some { w with main := .creatingFirst }
    | .creatingFirst => some { w with main := .creating }
    | .creating => some { w with main := .asking .channel 0 }
    | .asking flag nwait =>
      if w.client.isConnected flag then
        match flag with
        | .channel => some { w with main := .asking .get nwait }
        | .get => some { w with main := .asking .put nwait }
        | .put => some { w with main := .putting }
      else some { w with main := .sleeping nwait }
    | .sleeping nwait =>
      if nwait + 1 > 20 then some (w.write .didNotConnect)
      else some { w with main := .asking .channel (nwait + 1) }
    | .putting =>
      if w.client.pvaClientPut = false then some { w with main := .crashed }
      else
        match site.put r with
        | .issued _ _ => some { w with main := .waiting, sent := true }
        -- this client does not look at its flags
        | .notFound | .notConnected _ => some { w with main := .getting }
        | .threw => some (w.write .exception)
        | .outOfRange => some { w with main := .crashed }
    | .waiting => if w.signalled then some { w with main := .getting, signalled := false } else none
    | .getting =>
      if w.client.pvaClientGet = false then some { w with main := .crashed }
      else some { w with main := .calling }
    | .calling => none
    | .crashed => none
    | .terminated => none

/-- `main` makes a call that may throw, in the `try` of `putGet`. -/
def MayThrow (w : World) : Prop :=
  w.rest ≠ [] ∧ (w.main = .creating ∨ w.main = .putting ∨ w.main = .calling)

instance (w : World) : Decidable w.MayThrow := inferInstanceAs (Decidable (_ ∧ _))

/-- `main` makes a call that may throw, outside any `try`. -/
def Unguarded (w : World) : Prop := w.main = .opening ∨ w.main = .creatingFirst

instance (w : World) : Decidable w.Unguarded := inferInstanceAs (Decidable (_ ∨ _))

/-- One step. -/
def step (site : Site α) (w : World) : Event → Option World
  | .main => w.mainStep site
  | .channelStateChange isConnected =>
    if w.rest ≠ [] ∧ w.main.hasClient ∧ w.pieces = [] then
      some { w with
        client.channelConnected := isConnected
        pieces := if isConnected then [.createGet, .createPut] else [] }
    else none
  | .piece =>
    match w.pieces with
    | [] => none
    | piece :: pieces => some { w with client := w.client.create piece, pieces }
  | .channelGetConnect =>
    if w.client.pvaClientGet then some { w with client.getConnected := true } else none
  | .channelPutConnect =>
    if w.client.pvaClientPut then some { w with client.putConnected := true } else none
  | .putDone =>
    if w.sent ∧ ¬ w.answered then some { w with answered := true, signalled := true } else none
  | .returns => if w.rest ≠ [] ∧ w.main = .calling then some (w.write .pvResult) else none
  | .throws =>
    if w.Unguarded then some { w with main := .terminated }
    else if w.MayThrow then some (w.write .exception)
    else none

end World

/-- The program at a site. -/
def DBRrecordTypesClient {α : Type} (site : Site α) : EventMachine World Event where
  init := {}
  step := World.step site

/-! ### What a step does -/

/-- An object that is connected has been created. -/
structure ClientGetPut.Made (c : ClientGetPut) : Prop where
  get : c.getConnected = true → c.pvaClientGet = true
  put : c.putConnected = true → c.pvaClientPut = true

/-- The put is issued. -/
def Site.Issues {α : Type} (site : Site α) (r : Request) : Prop :=
  ∃ path contents, site.put r = .issued path contents

/-- This client does not look at its flags. -/
theorem Site.put_ne_notConnected {α : Type} (site : Site α) (r : Request) (message : String) :
    site.put r ≠ .notConnected message := by
  unfold Site.put
  rw [put_eq_putTo]
  rcases putTo_cases site.convert (site.pvStructure r) (site.contents r) r.value.toList with
    ⟨path, content, -, hput⟩ | ⟨-, hput⟩ | ⟨-, hput⟩ | ⟨-, hput⟩ <;> simp [hput]

namespace World

variable {α : Type} {site : Site α} {w w' : World} {e : Event}

/-- What a step of `main` can do. -/
inductive MainEffect (site : Site α) (w : World) : World → Prop
  | opened (hmain : w.main = .opening) : MainEffect site w { w with main := .creatingFirst }
  | created (hmain : w.main = .creatingFirst) : MainEffect site w { w with main := .creating }
  | create (hmain : w.main = .creating) : MainEffect site w { w with main := .asking .channel 0 }
  /-- The flag asked for is set. -/
  | next (flag : Flag) (nwait : ℕ) (hmain : w.main = .asking flag nwait)
      (hup : w.client.isConnected flag = true) (main : MainAt)
      (hnext : (flag, main) ∈ [(Flag.channel, .asking .get nwait), (.get, .asking .put nwait),
        (.put, .putting)]) : MainEffect site w { w with main }
  | sleep (flag : Flag) (nwait : ℕ) (hmain : w.main = .asking flag nwait) :
    MainEffect site w { w with main := .sleeping nwait }
  | wake (nwait : ℕ) (hmain : w.main = .sleeping nwait) (hnwait : nwait < 20) :
    MainEffect site w { w with main := .asking .channel (nwait + 1) }
  | giveUp (nwait : ℕ) (hmain : w.main = .sleeping nwait) :
    MainEffect site w (w.write .didNotConnect)
  | put (r : Request) (rest : List Request) (hrest : w.rest = r :: rest) (hmain : w.main = .putting)
      (hput : site.Issues r) : MainEffect site w { w with main := .waiting, sent := true }
  | notFound (r : Request) (rest : List Request) (hrest : w.rest = r :: rest)
      (hmain : w.main = .putting) (hput : site.put r = .notFound) :
    MainEffect site w { w with main := .getting }
  | threw (hmain : w.main = .putting) : MainEffect site w (w.write .exception)
  | outOfRange (r : Request) (rest : List Request) (hrest : w.rest = r :: rest)
      (hmain : w.main = .putting) (hput : site.put r = .outOfRange) :
    MainEffect site w { w with main := .crashed }
  | wait (hmain : w.main = .waiting) (hsignalled : w.signalled = true) :
    MainEffect site w { w with main := .getting, signalled := false }
  | call (hmain : w.main = .getting) : MainEffect site w { w with main := .calling }
  /-- An object is used that does not exist. -/
  | null (hnull : w.main = .putting ∧ w.client.pvaClientPut = false ∨
      w.main = .getting ∧ w.client.pvaClientGet = false) :
    MainEffect site w { w with main := .crashed }

theorem mainStep_effect (h : w.mainStep site = some w') :
    w.rest ≠ [] ∧ w.MainEffect site w' := by
  unfold mainStep at h
  split at h
  · exact absurd h (by simp)
  next r rest hrest =>
  refine ⟨by simp [hrest], ?_⟩
  split at h
  · next hmain => exact Option.some.inj h ▸ .opened hmain
  · next hmain => exact Option.some.inj h ▸ .created hmain
  · next hmain => exact Option.some.inj h ▸ .create hmain
  · next flag nwait hmain =>
    split at h
    · next hup =>
      cases flag with
      | channel => exact Option.some.inj h ▸ .next .channel nwait hmain hup _ (by simp)
      | get => exact Option.some.inj h ▸ .next .get nwait hmain hup _ (by simp)
      | put => exact Option.some.inj h ▸ .next .put nwait hmain hup _ (by simp)
    · exact Option.some.inj h ▸ .sleep flag nwait hmain
  · next nwait hmain =>
    split at h
    · exact Option.some.inj h ▸ .giveUp nwait hmain
    · next hnwait => exact Option.some.inj h ▸ .wake nwait hmain (by omega)
  · next hmain =>
    split at h
    · next hnull => exact Option.some.inj h ▸ .null (.inl ⟨hmain, hnull⟩)
    · split at h
      · next path contents hput =>
        exact Option.some.inj h ▸ .put r rest hrest hmain ⟨path, contents, hput⟩
      · next hput => exact Option.some.inj h ▸ .notFound r rest hrest hmain hput
      · next message hput => exact absurd hput (site.put_ne_notConnected r message)
      · exact Option.some.inj h ▸ .threw hmain
      · next hput => exact Option.some.inj h ▸ .outOfRange r rest hrest hmain hput
  · next hmain =>
    rw [Option.ite_none_right_eq_some] at h
    exact Option.some.inj h.2 ▸ .wait hmain h.1
  · next hmain =>
    split at h
    · next hnull => exact Option.some.inj h ▸ .null (.inr ⟨hmain, hnull⟩)
    · exact Option.some.inj h ▸ .call hmain
  · exact absurd h (by simp)
  · exact absurd h (by simp)
  · exact absurd h (by simp)

/-- What an event can do. -/
inductive Effect (site : Site α) (w : World) : Event → World → Prop
  | main (w' : World) (hrest : w.rest ≠ []) (hmain : w.MainEffect site w') : Effect site w .main w'
  /-- A callback changes the client only, and what has been connected stays so. -/
  | callback (e : Event) (client : ClientGetPut) (pieces : List Piece)
      (he : e ∉ [Event.main, .putDone, .returns, .throws])
      (hget : w.client.getConnected = true → client.getConnected = true)
      (hput : w.client.putConnected = true → client.putConnected = true)
      (hmade : w.client.Made → client.Made) :
    Effect site w e { w with client, pieces }
  | putDone (hsent : w.sent = true) (hanswered : w.answered = false) :
    Effect site w .putDone { w with answered := true, signalled := true }
  | returns (hrest : w.rest ≠ []) (hmain : w.main = .calling) :
    Effect site w .returns (w.write .pvResult)
  | terminates (h : w.Unguarded) : Effect site w .throws { w with main := .terminated }
  | throws (h : w.MayThrow) : Effect site w .throws (w.write .exception)

theorem step_effect (h : w.step site e = some w') : w.Effect site e w' := by
  cases e with
  | main =>
    obtain ⟨hrest, hmain⟩ := mainStep_effect h
    exact .main w' hrest hmain
  | channelStateChange isConnected =>
    simp only [step, Option.ite_none_right_eq_some, Option.some.injEq] at h
    obtain ⟨-, rfl⟩ := h
    exact .callback _ _ _ (by simp) id id fun h => ⟨h.get, h.put⟩
  | piece =>
    simp only [step] at h
    split at h
    · exact absurd h (by simp)
    · next piece pieces _ =>
      obtain rfl := Option.some.inj h
      cases piece with
      | createGet => exact .callback _ _ _ (by simp) id id fun h => ⟨fun _ => rfl, h.put⟩
      | createPut => exact .callback _ _ _ (by simp) id id fun h => ⟨h.get, fun _ => rfl⟩
  | channelGetConnect =>
    simp only [step, Option.ite_none_right_eq_some, Option.some.injEq] at h
    obtain ⟨hmade, rfl⟩ := h
    exact .callback _ _ _ (by simp) (fun _ => rfl) id fun h => ⟨fun _ => hmade, h.put⟩
  | channelPutConnect =>
    simp only [step, Option.ite_none_right_eq_some, Option.some.injEq] at h
    obtain ⟨hmade, rfl⟩ := h
    exact .callback _ _ _ (by simp) id (fun _ => rfl) fun h => ⟨h.get, fun _ => hmade⟩
  | putDone =>
    simp only [step, Option.ite_none_right_eq_some, Option.some.injEq, Bool.not_eq_true] at h
    obtain ⟨⟨hsent, hanswered⟩, rfl⟩ := h
    exact .putDone hsent hanswered
  | returns =>
    simp only [step, Option.ite_none_right_eq_some, Option.some.injEq] at h
    obtain ⟨⟨hrest, hmain⟩, rfl⟩ := h
    exact .returns hrest hmain
  | throws =>
    simp only [step] at h
    split at h
    · next hunguarded => exact Option.some.inj h ▸ .terminates hunguarded
    · rw [Option.ite_none_right_eq_some] at h
      exact Option.some.inj h.2 ▸ .throws h.1

end World

/-! ### What is written -/

/-- An entry tells what has become of the put: it has been answered if it was sent.  Nothing is
put on a channel that did not connect, and what is got is got after the put. -/
structure Entry.Tells {α : Type} (site : Site α) (entry : Entry) : Prop where
  answered : entry.answered = entry.sent
  issues : entry.sent = true → site.Issues entry.request
  unconnected : entry.report = .didNotConnect → entry.sent = false
  result : entry.report = .pvResult → entry.sent = true ∨ site.put entry.request = .notFound

namespace World

variable {α : Type} {site : Site α} {w w' : World} {e : Event}

/-- Nothing has been put for the call under way. -/
def Unsent (w : World) : Prop := w.sent = false ∧ w.answered = false ∧ w.signalled = false

/-- `put()` has returned: its put has been sent and answered, or no field was found. -/
def HasPut (site : Site α) (w : World) : Prop :=
  w.answered = w.sent ∧ ∃ r rest, w.rest = r :: rest ∧
    (w.sent = true ∧ site.Issues r ∨ w.sent = false ∧ site.put r = .notFound)

/-- What is known where `main` is. -/
def Ok (site : Site α) (w : World) : Prop :=
  match w.main with
  | .opening => w.Unsent ∧ w.entries = []
  | .creatingFirst => w.Unsent ∧ w.entries = []
  | .creating => w.Unsent
  | .asking flag nwait => w.Unsent ∧ nwait ≤ 20 ∧ (flag = .put → w.client.getConnected = true)
  | .sleeping nwait => w.Unsent ∧ nwait ≤ 20
  | .putting => w.Unsent ∧ w.client.getConnected = true ∧ w.client.putConnected = true
  | .waiting => w.client.getConnected = true ∧ w.sent = true ∧ w.answered = w.signalled ∧
      ∃ r rest, w.rest = r :: rest ∧ site.Issues r
  | .getting => w.client.getConnected = true ∧ w.HasPut site
  | .calling => w.HasPut site
  | .crashed => ∃ r rest, w.rest = r :: rest ∧ site.put r = .outOfRange
  | .terminated => w.Unsent ∧ w.entries = []

/-- The entries tell, and are those of the calls answered for. -/
structure Inv (site : Site α) (w : World) : Prop where
  made : w.client.Made
  ok : w.Ok site
  calls : w.entries.map Entry.request ++ w.rest = requests
  tells : ∀ entry ∈ w.entries, entry.Tells site

theorem inv_init : Inv site {} := by
  refine ⟨⟨?_, ?_⟩, ⟨⟨rfl, rfl, rfl⟩, rfl⟩, rfl, ?_⟩ <;> simp

/-- **The end of a call** begins the next one. -/
theorem Inv.write (h : w.Inv site) {report : Report}
    (htells : ∀ r rest, w.rest = r :: rest → Entry.Tells site ⟨r, report, w.sent, w.answered⟩) :
    (w.write report).Inv site := by
  have hcalls := h.calls
  unfold World.write
  split
  · exact h
  · next r rest hr =>
    rw [hr] at hcalls
    refine ⟨⟨by simp, by simp⟩, ⟨rfl, rfl, rfl⟩, by simpa using hcalls, ?_⟩
    intro entry hentry
    rcases List.mem_append.mp hentry with hentry | hentry
    · exact h.tells entry hentry
    · obtain rfl := List.mem_singleton.mp hentry
      exact htells r rest hr

/-- A call whose put has not been sent may end in any way but with what it got. -/
theorem Inv.write_of_unsent (h : w.Inv site) (hunsent : w.Unsent) {report : Report}
    (hreport : report ≠ .pvResult) : (w.write report).Inv site := by
  obtain ⟨hsent, hanswered, -⟩ := hunsent
  refine h.write fun r rest hr => ⟨hanswered.trans hsent.symm, fun hs => ?_, fun _ => hsent,
    fun hresult => absurd hresult hreport⟩
  exact absurd (hsent.symm.trans hs) Bool.noConfusion

/-- A call whose put is over may end in any way but as if it had not connected. -/
theorem Inv.write_of_hasPut (h : w.Inv site) (hput : w.HasPut site) {report : Report}
    (hreport : report ≠ .didNotConnect) : (w.write report).Inv site := by
  obtain ⟨hanswered, r, rest, hr, hcases⟩ := hput
  refine h.write fun r' rest' hr' => ?_
  obtain ⟨rfl, rfl⟩ := List.cons.inj (hr.symm.trans hr')
  refine ⟨hanswered, fun hs => ?_, fun hnot => absurd hnot hreport, fun _ => ?_⟩
  · rcases hcases with ⟨-, hissues⟩ | ⟨hsent, -⟩
    · exact hissues
    · exact absurd (hsent.symm.trans hs) Bool.noConfusion
  · exact hcases.imp And.left And.right

/-- **`main` keeps the entries right.** -/
theorem Inv.mainStep (h : w.Inv site) (hs : w.MainEffect site w') : w'.Inv site := by
  have hok := h.ok
  unfold Ok at hok
  cases hs with
  | opened hmain =>
    rw [hmain] at hok
    exact ⟨h.made, hok, h.calls, h.tells⟩
  | created hmain =>
    rw [hmain] at hok
    exact ⟨h.made, hok.1, h.calls, h.tells⟩
  | create hmain =>
    rw [hmain] at hok
    exact ⟨h.made, ⟨hok, by omega, by simp⟩, h.calls, h.tells⟩
  | next flag nwait hmain hup main hnext =>
    rw [hmain] at hok
    obtain ⟨hunsent, hnwait, hget⟩ := hok
    refine ⟨h.made, ?_, h.calls, h.tells⟩
    simp only [List.mem_cons, List.not_mem_nil, or_false, Prod.mk.injEq] at hnext
    rcases hnext with ⟨-, rfl⟩ | ⟨rfl, rfl⟩ | ⟨rfl, rfl⟩
    · exact ⟨hunsent, hnwait, by simp⟩
    · exact ⟨hunsent, hnwait, fun _ => hup⟩
    · exact ⟨hunsent, hget rfl, hup⟩
  | sleep flag nwait hmain =>
    rw [hmain] at hok
    exact ⟨h.made, ⟨hok.1, hok.2.1⟩, h.calls, h.tells⟩
  | wake nwait hmain hnwait =>
    rw [hmain] at hok
    exact ⟨h.made, ⟨hok.1, hnwait, by simp⟩, h.calls, h.tells⟩
  | giveUp nwait hmain =>
    rw [hmain] at hok
    exact h.write_of_unsent hok.1 (by simp)
  | put r rest hrest hmain hput =>
    rw [hmain] at hok
    obtain ⟨hunsent, hget, -⟩ := hok
    have hwaits : w.answered = w.signalled := hunsent.2.1.trans hunsent.2.2.symm
    exact ⟨h.made, ⟨hget, rfl, hwaits, r, rest, hrest, hput⟩, h.calls, h.tells⟩
  | notFound r rest hrest hmain hput =>
    rw [hmain] at hok
    obtain ⟨⟨hsent, hanswered, -⟩, hget, -⟩ := hok
    exact ⟨h.made, ⟨hget, hanswered.trans hsent.symm, r, rest, hrest, .inr ⟨hsent, hput⟩⟩,
      h.calls, h.tells⟩
  | threw hmain =>
    rw [hmain] at hok
    exact h.write_of_unsent hok.1 (by simp)
  | outOfRange r rest hrest hmain hput => exact ⟨h.made, ⟨r, rest, hrest, hput⟩, h.calls, h.tells⟩
  | wait hmain hsignalled =>
    rw [hmain] at hok
    obtain ⟨hget, hsent, hanswered, r, rest, hrest, hissues⟩ := hok
    have hboth : w.answered = w.sent := by rw [hanswered, hsignalled, hsent]
    exact ⟨h.made, ⟨hget, hboth, r, rest, hrest, .inl ⟨hsent, hissues⟩⟩, h.calls, h.tells⟩
  | call hmain =>
    rw [hmain] at hok
    exact ⟨h.made, hok.2, h.calls, h.tells⟩
  | null hnull =>
    -- what is used has been connected, and so created
    rcases hnull with ⟨hmain, hnull⟩ | ⟨hmain, hnull⟩
    · rw [hmain] at hok
      exact absurd (hnull.symm.trans (h.made.put hok.2.2)) Bool.noConfusion
    · rw [hmain] at hok
      exact absurd (hnull.symm.trans (h.made.get hok.1)) Bool.noConfusion

/-- A put that has been sent and not answered is waited for. -/
theorem Inv.waiting_of_owed (h : w.Inv site) (hsent : w.sent = true) (hanswered : w.answered = false)
    (hcrashed : w.main ≠ .crashed) : w.main = .waiting := by
  have hok := h.ok
  unfold Ok at hok
  split at hok
  · exact absurd (hok.1.1.symm.trans hsent) Bool.noConfusion
  · exact absurd (hok.1.1.symm.trans hsent) Bool.noConfusion
  · exact absurd (hok.1.symm.trans hsent) Bool.noConfusion
  · exact absurd (hok.1.1.symm.trans hsent) Bool.noConfusion
  · exact absurd (hok.1.1.symm.trans hsent) Bool.noConfusion
  · exact absurd (hok.1.1.symm.trans hsent) Bool.noConfusion
  · next hmain => exact hmain
  · exact absurd (hanswered.symm.trans (hok.2.1.trans hsent)) Bool.noConfusion
  · exact absurd (hanswered.symm.trans (hok.1.trans hsent)) Bool.noConfusion
  · next hmain => exact absurd hmain hcrashed
  · exact absurd (hok.1.1.symm.trans hsent) Bool.noConfusion

/-- **Every event keeps the entries right.** -/
theorem Inv.step (h : w.Inv site) (hs : w.step site e = some w') : w'.Inv site := by
  have hok := h.ok
  cases step_effect hs with
  | main w' hrest hmain => exact h.mainStep hmain
  | callback e client pieces he hget hput hmade =>
    refine ⟨hmade h.made, ?_, h.calls, h.tells⟩
    unfold Ok at hok ⊢
    simp only
    split at hok
    · exact hok
    · exact hok
    · exact hok
    · exact ⟨hok.1, hok.2.1, fun hflag => hget (hok.2.2 hflag)⟩
    · exact hok
    · exact ⟨hok.1, hget hok.2.1, hput hok.2.2⟩
    · exact ⟨hget hok.1, hok.2⟩
    · exact ⟨hget hok.1, hok.2⟩
    · exact hok
    · exact hok
    · exact hok
  | putDone hsent hanswered =>
    refine ⟨h.made, ?_, h.calls, h.tells⟩
    by_cases hcrashed : w.main = .crashed
    · unfold Ok at hok ⊢
      simp only [hcrashed] at hok ⊢
      exact hok
    · have hmain := h.waiting_of_owed hsent hanswered hcrashed
      unfold Ok at hok ⊢
      simp only [hmain] at hok ⊢
      exact ⟨hok.1, hok.2.1, trivial, hok.2.2.2⟩
  | returns hrest hmain =>
    rw [Ok, hmain] at hok
    exact h.write_of_hasPut hok (by simp)
  | terminates hunguarded =>
    refine ⟨h.made, ?_, h.calls, h.tells⟩
    rcases hunguarded with hmain | hmain
    · rw [Ok, hmain] at hok
      exact hok
    · rw [Ok, hmain] at hok
      exact hok
  | throws hthrow =>
    obtain ⟨-, hmain | hmain | hmain⟩ := hthrow
    · rw [Ok, hmain] at hok
      exact h.write_of_unsent hok (by simp)
    · rw [Ok, hmain] at hok
      exact h.write_of_unsent hok.1 (by simp)
    · rw [Ok, hmain] at hok
      exact h.write_of_hasPut hok (by simp)

theorem inv_of_run {es : List Event} (hrun : (DBRrecordTypesClient site).run {} es = some w) :
    w.Inv site :=
  EventMachine.run_invariant (M := DBRrecordTypesClient site) (fun _ _ _ h hs => h.step hs)
    inv_init hrun

end World

/-- A site where each structure is a scalar `value`. -/
def scalarSite : Site (List (List Char)) where
  convert := textConvert
  pvStructure _ := [("value", .scalar)]
  contents _ _ := []

/-- The steps before the first call. -/
def opened : List Event := [.main, .main]

/-- The steps of a call whose client connects and puts. -/
def connectedCall : List Event :=
  [.main, .channelStateChange true, .piece, .channelGetConnect, .main, .main, .piece,
    .channelPutConnect, .main, .main, .putDone, .main, .main, .returns]

/-- Whom `main` waits for: itself, the library that its calls are made of, and the server that
answers its puts. -/
inductive Actor
  | main
  | library
  | server
  deriving DecidableEq, Repr

/-- The steps of an actor. -/
inductive Acts : Actor → Event → Prop
  | main : Acts .main .main
  | returns : Acts .library .returns
  | throws : Acts .library .throws
  | server : Acts .server .putDone

/-- No search for a field takes one that is not there. -/
def Site.InRange {α : Type} (site : Site α) : Prop := ∀ r ∈ requests, site.put r ≠ .outOfRange

/-- The steps to the end of a call. -/
def MainAt.toGo (signalled : Bool) : MainAt → ℕ
  | opening => 152
  | creatingFirst => 151
  | creating => 150
  | asking .channel nwait => (20 - nwait) * 4 + 13
  | asking .get nwait => (20 - nwait) * 4 + 12
  | asking .put nwait => (20 - nwait) * 4 + 11
  | sleeping nwait => (20 - nwait) * 4 + 10
  | putting => 9
  | waiting => if signalled then 7 else 8
  | getting => 6
  | calling => 5
  | crashed => 0
  | terminated => 0

namespace World

variable {α : Type} {site : Site α} {w w' : World} {e : Event}

/-- The steps to the end. -/
def toGo (w : World) : ℕ := w.rest.length * 200 + w.main.toGo w.signalled

/-- Whom `main` waits for. -/
def helpful (w : World) : Actor :=
  match w.main with
  | .waiting => if w.signalled then .main else .server
  | .calling => .library
  | _ => .main

/-- A put has been sent and not answered. -/
def Owed (w : World) : Prop := w.sent = true ∧ w.answered = false

theorem Inv.ne_crashed (h : w.Inv site) (hrange : site.InRange) : w.main ≠ .crashed := by
  intro hmain
  have hok := h.ok
  rw [Ok, hmain] at hok
  obtain ⟨r, rest, hrest, hput⟩ := hok
  refine hrange r ?_ hput
  rw [← h.calls, hrest]
  simp

theorem toGo_write (hrest : w.rest ≠ []) (report : Report) : (w.write report).toGo < w.toGo := by
  unfold write
  split
  · next hnil => exact absurd hnil hrest
  · next r rest hr =>
    simp only [toGo, MainAt.toGo, hr, List.length_cons]
    omega

/-- **`main` comes closer to its end by every step.** -/
theorem Inv.toGo_mainStep (h : w.Inv site) (hrange : site.InRange) (hrest : w.rest ≠ [])
    (hs : w.MainEffect site w') : w'.toGo < w.toGo := by
  have hcrashed := (h.mainStep hs).ne_crashed hrange
  cases hs with
  | opened hmain | created hmain | create hmain => simp only [toGo, MainAt.toGo, hmain]; omega
  | next flag nwait hmain hup main hnext =>
    simp only [List.mem_cons, List.not_mem_nil, or_false, Prod.mk.injEq] at hnext
    rcases hnext with ⟨rfl, rfl⟩ | ⟨rfl, rfl⟩ | ⟨rfl, rfl⟩
    all_goals simp only [toGo, MainAt.toGo, hmain]; omega
  | sleep flag nwait hmain => cases flag <;> simp only [toGo, MainAt.toGo, hmain] <;> omega
  | wake nwait hmain hnwait => simp only [toGo, MainAt.toGo, hmain]; omega
  | giveUp nwait hmain | threw hmain => exact toGo_write hrest _
  | put r rest hr hmain hput =>
    simp only [toGo, MainAt.toGo, hmain]
    split <;> omega
  | notFound r rest hr hmain hput | call hmain => simp only [toGo, MainAt.toGo, hmain]; omega
  | wait hmain hsignalled => simp only [toGo, MainAt.toGo, hmain, hsignalled, if_true]; omega
  | outOfRange | null => exact absurd rfl hcrashed

/-- `main` goes on by itself, unless it waits for somebody. -/
theorem exists_mainStep (site : Site α) (hrest : w.rest ≠ []) (hhelpful : w.helpful = .main)
    (hcrashed : w.main ≠ .crashed) (hterminated : w.main ≠ .terminated) : ∃ w', w.mainStep site = some w' := by
  unfold mainStep
  unfold helpful at hhelpful
  split
  · next hnil => exact absurd hnil hrest
  split
  · exact ⟨_, rfl⟩
  · exact ⟨_, rfl⟩
  · exact ⟨_, rfl⟩
  · split
    · split <;> exact ⟨_, rfl⟩
    · exact ⟨_, rfl⟩
  · split <;> exact ⟨_, rfl⟩
  · split
    · exact ⟨_, rfl⟩
    · split <;> exact ⟨_, rfl⟩
  · next hmain =>
    rw [hmain] at hhelpful
    cases hsignalled : w.signalled with
    | true => exact ⟨_, rfl⟩
    | false => simp [hsignalled] at hhelpful
  · split <;> exact ⟨_, rfl⟩
  · next hmain => simp [hmain] at hhelpful
  · next hmain => exact absurd hmain hcrashed
  · next hmain => exact absurd hmain hterminated

/-- Whom `main` waits for can make a step, unless it has come to its end. -/
theorem Inv.canAct_helpful (h : w.Inv site) (hrange : site.InRange) (hrest : w.rest ≠ [])
    (hterminated : w.main ≠ .terminated) :
    (DBRrecordTypesClient site).CanAct Acts w.helpful w := by
  have hcrashed := h.ne_crashed hrange
  cases hhelpful : w.helpful with
  | main =>
    obtain ⟨w', hs⟩ := exists_mainStep site hrest hhelpful hcrashed hterminated
    exact ⟨.main, w', .main, hs⟩
  | library =>
    have hmain : w.main = .calling := by
      unfold helpful at hhelpful
      split at hhelpful
      · split at hhelpful <;> exact absurd hhelpful (by simp)
      · next hmain => exact hmain
      · exact absurd hhelpful (by simp)
    exact ⟨.returns, _, .returns, if_pos ⟨hrest, hmain⟩⟩
  | server =>
    have hmain : w.main = .waiting ∧ w.signalled = false := by
      unfold helpful at hhelpful
      split at hhelpful
      · next hmain =>
        cases hsignalled : w.signalled with
        | true => simp [hsignalled] at hhelpful
        | false => exact ⟨hmain, rfl⟩
      · exact absurd hhelpful (by simp)
      · exact absurd hhelpful (by simp)
    have hok := h.ok
    rw [Ok, hmain.1] at hok
    obtain ⟨-, hsent, hanswered, -⟩ := hok
    refine ⟨.putDone, _, .server, if_pos ⟨hsent, ?_⟩⟩
    simp [hanswered, hmain.2]

/-- Only an answer ends the waiting for it. -/
theorem Inv.owed_step (h : w.Inv site) (hrange : site.InRange) (howed : w.Owed)
    (he : e ≠ .putDone) (hs : w.step site e = some w') : w'.Owed := by
  have hmain := h.waiting_of_owed howed.1 howed.2 (h.ne_crashed hrange)
  have hok := h.ok
  rw [Ok, hmain] at hok
  cases step_effect hs with
  | main w' hrest heffect =>
    -- `main` waits
    cases heffect with
    | wait _ hsignalled =>
      rw [hsignalled, howed.2] at hok
      exact absurd hok.2.2.1 Bool.noConfusion
    | null hnull => rcases hnull with ⟨hat, -⟩ | ⟨hat, -⟩ <;> simp [hmain] at hat
    | opened hat | created hat | create hat | next _ _ hat | sleep _ _ hat | wake _ hat | giveUp _ hat | put _ _ _ hat
    | notFound _ _ _ hat | threw hat | outOfRange _ _ _ hat | call hat => simp [hmain] at hat
  | callback => exact howed
  | putDone => exact absurd rfl he
  | returns _ hat => simp [hmain] at hat
  | terminates hunguarded => rcases hunguarded with hat | hat <;> simp [hmain] at hat
  | throws hthrow =>
    obtain ⟨-, hat | hat | hat⟩ := hthrow <;> simp [hmain] at hat

/-- **A program that has ended by an exception stays so**, with all calls unanswered for. -/
theorem Inv.rest_of_terminated (h : w.Inv site) (hmain : w.main = .terminated) :
    w.rest = requests := by
  have hok := h.ok
  rw [Ok, hmain] at hok
  have hcalls := h.calls
  rwa [hok.2] at hcalls

theorem terminated_step (hmain : w.main = .terminated) (hs : w.step site e = some w') :
    w'.main = .terminated := by
  cases step_effect hs with
  | main w' hrest heffect =>
    cases heffect with
    | null hnull => rcases hnull with ⟨hat, -⟩ | ⟨hat, -⟩ <;> simp [hmain] at hat
    | opened hat | created hat | create hat | next _ _ hat | sleep _ _ hat | wake _ hat
    | giveUp _ hat | put _ _ _ hat | notFound _ _ _ hat | threw hat | outOfRange _ _ _ hat
    | wait hat | call hat => simp [hmain] at hat
  | callback | putDone => exact hmain
  | returns _ hat => simp [hmain] at hat
  | terminates => rfl
  | throws hthrow =>
    obtain ⟨-, hat | hat | hat⟩ := hthrow <;> simp [hmain] at hat

end World

section ending

variable {α : Type} {site : Site α} {S : (DBRrecordTypesClient site).Schedule}

/-- What leads `main` to its end. -/
def endRanking (hrange : site.InRange) :
    (DBRrecordTypesClient site).Ranking Acts (World.Inv site)
      fun w => w.rest = [] ∨ w.main = .terminated where
  rank := World.toGo
  helpful := World.helpful
  canAct _ h hnot := h.canAct_helpful hrange (not_or.mp hnot).1 (not_or.mp hnot).2
  step w e w' h hnot hs := by
    have hrest := (not_or.mp hnot).1
    have hnext := h.step hs
    cases World.step_effect hs with
    | main w' _ hmain => exact .inr ⟨hnext, .inl (h.toGo_mainStep hrange hrest hmain)⟩
    | callback e client pieces he =>
      refine .inr ⟨hnext, .inr ⟨rfl, rfl, fun hacts => ?_⟩⟩
      generalize w.helpful = actor at hacts
      cases hacts <;> simp at he
    | putDone hsent hanswered =>
      have hmain := h.waiting_of_owed hsent hanswered (h.ne_crashed hrange)
      have hok := h.ok
      rw [World.Ok, hmain] at hok
      obtain ⟨-, -, hsignalled, -⟩ := hok
      refine .inr ⟨hnext, .inl ?_⟩
      simp [World.toGo, hmain, MainAt.toGo, ← hsignalled, hanswered]
    | terminates => exact .inl (.inr rfl)
    | returns | throws => exact .inr ⟨hnext, .inl (World.toGo_write hrest _)⟩

theorem inv_state (S : (DBRrecordTypesClient site).Schedule) (m : ℕ) : (S.state m).Inv site := by
  obtain ⟨es, hrun⟩ := (S.reachable m).exists_run
  exact World.inv_of_run hrun

/-- A put that is never answered is owed ever after. -/
theorem owed_of_not_answered (hrange : site.InRange) {m l : ℕ} (howed : (S.state m).Owed)
    (hnever : ∀ l, m ≤ l → S.event l ≠ some .putDone) (hl : m ≤ l) : (S.state l).Owed := by
  induction l, hl using Nat.le_induction with
  | base => exact howed
  | succ l hl ih =>
    cases hevent : S.event l with
    | none => rwa [EventMachine.Schedule.state_of_pause hevent]
    | some e =>
      refine (inv_state S l).owed_step hrange ih ?_ (EventMachine.Schedule.step_of_event hevent)
      rintro rfl
      exact hnever l hl hevent

/-- The calls answered for stay so. -/
theorem rest_nil_of_le {m l : ℕ} (hrest : (S.state m).rest = []) (hl : m ≤ l) :
    (S.state l).rest = [] := by
  induction l, hl using Nat.le_induction with
  | base => exact hrest
  | succ l hl ih =>
    cases hevent : S.event l with
    | none => rwa [EventMachine.Schedule.state_of_pause hevent]
    | some e =>
      have hs := EventMachine.Schedule.step_of_event hevent
      generalize S.state (l + 1) = w' at hs
      cases World.step_effect hs with
      | main _ hne | returns hne => exact absurd ih hne
      | throws hthrow => exact absurd ih hthrow.1
      | callback | putDone | terminates => exact ih

theorem terminated_of_le {m l : ℕ} (hmain : (S.state m).main = .terminated) (hl : m ≤ l) :
    (S.state l).main = .terminated := by
  induction l, hl using Nat.le_induction with
  | base => exact hmain
  | succ l hl ih =>
    cases hevent : S.event l with
    | none => rwa [EventMachine.Schedule.state_of_pause hevent]
    | some e => exact World.terminated_step ih (EventMachine.Schedule.step_of_event hevent)

end ending

/-- **`main` answers for all calls exactly if no exception ends it before the first, and each put
that is sent is answered.**  It does not wait for channels that do not connect, nor for what fails.
`main` goes on by itself, the calls of the library return or throw, and no search for a field takes
one that is not there. -/
theorem putGets_end_iff {α : Type} (site : Site α) (hrange : site.InRange)
    (S : (DBRrecordTypesClient site).Schedule) (hmain : S.Fair Acts .main)
    (hlibrary : S.Fair Acts .library) :
    (∃ m, (S.state m).rest = []) ↔
      (∀ m, (S.state m).main ≠ .terminated) ∧
        ∀ m, (S.state m).Owed → ∃ l, m ≤ l ∧ S.event l = some .putDone := by
  constructor
  · rintro ⟨m, hrest⟩
    refine ⟨fun k hterminated => ?_, fun k howed => ?_⟩
    · have hend := rest_nil_of_le hrest (le_max_left m k)
      have hkept := (inv_state S (max m k)).rest_of_terminated
        (terminated_of_le hterminated (le_max_right m k))
      exact absurd (hend.symm.trans hkept) (by simp [requests])
    by_contra hnever
    have hnever' : ∀ l, k ≤ l → S.event l ≠ some .putDone := fun l hl hevent =>
      hnever ⟨l, hl, hevent⟩
    -- the put is still owed when the last call has been answered for
    have howed' := owed_of_not_answered hrange howed hnever' (le_max_right m k)
    have hend := rest_nil_of_le hrest (le_max_left m k)
    have h := inv_state S (max m k)
    have hwaiting := h.waiting_of_owed howed'.1 howed'.2 (h.ne_crashed hrange)
    have hok := h.ok
    rw [World.Ok, hwaiting] at hok
    obtain ⟨-, -, -, r, rest, hrest', -⟩ := hok
    simp [hend] at hrest'
  · rintro ⟨hgoes, hanswers⟩
    have hfair : ∀ actor, S.Fair Acts actor := by
      intro actor
      cases actor with
      | main => exact hmain
      | library => exact hlibrary
      | server =>
        intro n hcan
        obtain ⟨e, w, hacts, hs⟩ := hcan n le_rfl
        cases hacts
        have hs : (S.state n).step site .putDone = some w := hs
        have howed : (S.state n).Owed := by
          generalize S.state n = v at hs
          cases World.step_effect hs with
          | callback _ _ _ he => simp at he
          | putDone hsent hanswered => exact ⟨hsent, hanswered⟩
        obtain ⟨l, hl, hevent⟩ := hanswers n howed
        exact ⟨l, .putDone, hl, hevent, .server⟩
    obtain ⟨l, -, hdone | hterminated⟩ := (endRanking hrange).eventually hfair (inv_state S 0)
    · exact ⟨l, hdone⟩
    · exact absurd hterminated (hgoes l)

theorem scalarSite_inRange : scalarSite.InRange := by
  intro r _ hput
  exact absurd hput (by simp [Site.put, put_eq_putTo, putTo, scalarSite, search, textConvert])

/-- The first call puts and gets, and the clients of the others cannot be created. -/
def oneConnected : List Event := opened ++ connectedCall ++ List.replicate 17 .throws

theorem putGets_end_oneConnected : ∃ m,
    ((EventMachine.Schedule.replay (DBRrecordTypesClient scalarSite) oneConnected).state m).rest =
      [] := by
  have hnone : ∀ e ∈ [Event.main, .returns, .throws],
      ((DBRrecordTypesClient scalarSite).step (EventMachine.Schedule.replayState
        (DBRrecordTypesClient scalarSite) oneConnected oneConnected.length) e).isNone = true := by
    decide +kernel
  -- the schedule stays in its last state
  have hend : ∀ m, 33 ≤ m → ((EventMachine.Schedule.replay (DBRrecordTypesClient scalarSite)
      oneConnected).state m) = EventMachine.Schedule.replayState (DBRrecordTypesClient scalarSite)
        oneConnected oneConnected.length :=
    fun m hm => EventMachine.Schedule.replayState_of_le (Nat.le_trans (by decide) hm)
  refine (putGets_end_iff scalarSite scalarSite_inRange _ ?_ ?_).mpr
    ⟨fun m hterminated => ?_, fun m howed => ⟨12, ?_, ?_⟩⟩
  · apply EventMachine.Schedule.fair_replay
    rintro ⟨e, w, hacts, hs⟩
    cases hacts
    simpa [hs] using hnone .main (by simp)
  · apply EventMachine.Schedule.fair_replay
    rintro ⟨e, w, hacts, hs⟩
    cases hacts with
    | returns => simpa [hs] using hnone .returns (by simp)
    | throws => simpa [hs] using hnone .throws (by simp)
  · have hlast := terminated_of_le hterminated (le_max_left m 33)
    rw [hend _ (le_max_right m 33)] at hlast
    exact absurd hlast (by decide +kernel)
  · -- nothing is owed once the put has been answered
    have hlast : ∀ m < 34, (EventMachine.Schedule.replayState (DBRrecordTypesClient scalarSite)
        oneConnected m).sent = true ∧ (EventMachine.Schedule.replayState
          (DBRrecordTypesClient scalarSite) oneConnected m).answered = false → m ≤ 12 := by
      decide +kernel
    rcases Nat.lt_or_ge m 34 with hm | hm
    · exact hlast m hm howed
    · rw [hend m (by omega)] at howed
      exact absurd (hlast 33 (by decide) howed) (by decide)
  · decide +kernel

end TestDatabase.PutGet

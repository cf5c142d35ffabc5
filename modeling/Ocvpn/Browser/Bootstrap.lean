import Ocvpn.Model.Split
import Ocvpn.Model.Uuid

/-!
# The loopback bootstrap

`serve` of `crates/client/src/browser_bootstrap.rs` answers one connection after another until a
browser has fetched the redirect or the page.  `WellFormed` says which requests are the browser's,
`request` is the parser of the code.

## Main results

* `readHead_eq` : the head of a request does not depend on the chunks it arrives in.
* `request_eq_ok` : the parser accepts the well-formed requests and no others.
* `serve_genuine_iff` : when only the browser's request ends the listener.
-/

namespace Ocvpn.Bootstrap

/-! ### Reading -/

/-- `HEADER_LIMIT`. -/
def headerLimit : ℕ := 16 * 1024

/-- The bytes of an empty line, after the end of the line before. -/
def emptyLine : List UInt8 := [13, 10, 13, 10]

/-- How the loop that reads the head of a request ends. -/
inductive Reading where
  | complete (head : List UInt8)
  | tooLarge
  | closed
  /-- Nothing more arrives. -/
  | stalled
  deriving DecidableEq

/-- The loop that reads the head of a request.  A read returns a chunk, the empty chunk at the end of
the stream, or fails (`none`); it gets at most the rest of the buffer. -/
def readHead (used : List UInt8) : List (Option (List UInt8)) → Reading
  | [] => if used.length = headerLimit then .tooLarge else .stalled
  | count :: reads =>
    if used.length = headerLimit then .tooLarge
    else match count with
      | none | some [] => .closed
      | some chunk =>
        let used := used ++ chunk.take (headerLimit - used.length)
        match position emptyLine used with
        | some i => .complete (used.take i)
        | none => readHead used reads

/-- What a client sent before it closed the stream or a read failed. -/
def received : List (Option (List UInt8)) → List UInt8
  | [] | none :: _ | some [] :: _ => []
  | some chunk :: reads => chunk ++ received reads

/-- The bytes before the first empty line. -/
def headOf (bytes : List UInt8) : Option (List UInt8) := (position emptyLine bytes).map bytes.take

/-- `std::str::from_utf8`. -/
def decode (bytes : List UInt8) : Option (List Char) :=
  (String.fromUTF8? ⟨bytes.toArray⟩).map String.toList

/-! ### Requests -/

/-- A character of a header name. -/
def isTokenChar (c : Char) : Bool := c.isAlphanum || "!#$%&'*+-.^_`|~".toList.contains c

/-- A character that no header value has. -/
def isForbidden (c : Char) : Bool := (c.toNat < 32 && c != '\t') || c.toNat == 127

/-- `trim_matches`. -/
def trimMatches (p : Char → Bool) (s : List Char) : List Char :=
  ((s.dropWhile p).reverse.dropWhile p).reverse

/-- The value of a `Host` header. -/
def hostValue (value : List Char) : List Char := trimMatches (fun c => c == ' ' || c == '\t') value

/-- A header of a request with a body, an upgrade or a transfer coding. -/
def announcesBody (name value : List Char) : Bool :=
  eqIgnoreAsciiCase name "transfer-encoding".toList || eqIgnoreAsciiCase name "upgrade".toList ||
    (eqIgnoreAsciiCase name "content-length".toList && trimMatches isWhitespace value != ['0'])

/-- The loop over the header lines: whether the request is still valid, and the `Host` seen. -/
def headers (valid : Bool) (host : Option (List Char)) :
    List (List Char) → Bool × Option (List Char)
  | [] => (valid, host)
  | line :: lines =>
    match splitOnce ':' line with
    | none => (false, host)
    | some (name, value) =>
      if name.isEmpty || !name.all isTokenChar || value.any isForbidden then (false, host)
      else
        let isHost := eqIgnoreAsciiCase name "host".toList
        headers (valid && !(isHost && host.isSome) && !announcesBody name value)
          (if isHost then some (hostValue value) else host) lines

/-- The methods that are answered. -/
inductive Method where
  | get | head
  deriving DecidableEq, Repr

/-- The word of a request line. -/
def Method.text : Method → List Char
  | .get => "GET".toList
  | .head => "HEAD".toList

/-- The check of a request: its method, or the status of the rejection. -/
def request (authority path head : List Char) : Except String Method :=
  let lines := splitLines head
  let requestLine := splitOn ' ' (lines.headD [])
  let method := requestLine.headD []
  let target := requestLine.tail.headD []
  let version := requestLine.tail.tail.headD []
  let valid := version == "HTTP/1.1".toList && requestLine.tail.tail.tail.isEmpty
  let (valid, host) := headers valid none lines.tail
  if !valid || host != some authority then .error "400 Bad Request"
  else if target ≠ path then .error "404 Not Found"
  else if method = Method.get.text then .ok .get
  else if method = Method.head.text then .ok .head
  else .error "405 Method Not Allowed"

/-! ### Answering -/

/-- `PRIVACY_HEADERS`. -/
def privacyHeaders : String :=
  "Cache-Control: no-store\r\nPragma: no-cache\r\nReferrer-Policy: no-referrer\r\n" ++
    "X-Content-Type-Options: nosniff\r\nConnection: close\r\n"

/-- What the browser is to be given. -/
inductive Payload where
  | redirect (uri : String)
  | html (bytes : List UInt8)

/-- The headers of the answer to the browser. -/
def Payload.headers : Payload → String
  | .redirect uri =>
    "HTTP/1.1 302 Found\r\n" ++ privacyHeaders ++ "Location: " ++ uri ++
      "\r\nContent-Length: 0\r\n\r\n"
  | .html bytes =>
    "HTTP/1.1 200 OK\r\n" ++ privacyHeaders ++
      "Content-Type: text/html; charset=utf-8\r\nContent-Length: " ++ toString bytes.length ++
      "\r\n\r\n"

/-- Something written to a client. -/
inductive Reply where
  | rejection (text : String)
  | headers (text : String)
  | body (bytes : List UInt8)
  deriving DecidableEq

/-- One connection: what its reads return, and whether its writes and its shutdown succeed.  When a
list has come to its end, the client stalls. -/
structure Client where
  loopback : Bool
  reads : List (Option (List UInt8))
  writes : List Bool

/-- The result of `respond`, under the timeout of a connection. -/
inductive Outcome where
  | returned (served : Bool)
  | failed (error : Error)
  | elapsed
  deriving DecidableEq

/-- `runtime`. -/
def runtime : Error := .new .runtimeFailure "Browser bootstrap listener failed"

/-- One connection, answered. -/
structure Turn where
  outcome : Outcome
  consumed : Bool
  /-- What was written, or begun to be. -/
  sent : List Reply

/-- `reject`: failures of the write and the shutdown are ignored. -/
def reject (status : String) (writes : List Bool) : Turn where
  outcome := if writes.length < 2 then .elapsed else .returned false
  consumed := false
  sent := [.rejection ("HTTP/1.1 " ++ status ++ "\r\n" ++ privacyHeaders ++
    "Content-Length: 0\r\n\r\n")]

/-- Writes one after another, then the shutdown; each may stall or fail. -/
def deliver (served : Bool) : List Reply → List Bool → Outcome × List Reply
  | pieces, [] => (.elapsed, pieces.take 1)
  | pieces, false :: _ => (.failed runtime, pieces.take 1)
  | [], true :: _ => (.returned served, [])
  | piece :: pieces, true :: writes =>
    let (outcome, sent) := deliver served pieces writes
    (outcome, piece :: sent)

/-- What is written in answer to a method. -/
def Payload.pieces (payload : Payload) : Method → List Reply
  | .head => [.headers payload.headers]
  | .get => .headers payload.headers :: match payload with
    | .redirect _ => []
    | .html bytes => [.body bytes]

/-- The answer to a request that was accepted. -/
def answer (payload : Payload) (method : Method) (writes : List Bool) : Turn where
  outcome := (deliver (method == .get) (payload.pieces method) writes).1
  consumed := method == .get
  sent := (deliver (method == .get) (payload.pieces method) writes).2

section

variable (authority path : List Char) (payload : Payload)

/-- `respond`. -/
def respond (c : Client) : Turn :=
  match readHead [] c.reads with
  | .tooLarge => reject "431 Request Header Fields Too Large" c.writes
  | .closed => ⟨.returned false, false, []⟩
  | .stalled => ⟨.elapsed, false, []⟩
  | .complete bytes =>
    match decode bytes with
    | none => reject "400 Bad Request" c.writes
    | some head =>
      match request authority path head with
      | .error status => reject status c.writes
      | .ok method => answer payload method c.writes

/-- The match of `serve` on the result of a connection: what it returns, if it does. -/
def Turn.result (t : Turn) : Option (Except Error Unit) :=
  match t.outcome with
  | .returned true => some (.ok ())
  | .failed error => some (.error error)
  | .elapsed => if t.consumed then some (.error runtime) else none
  | .returned false => none

/-- A run of the listener: what `serve` returned, if it did, and what was sent to whom. -/
structure Service where
  result : Option (Except Error Unit)
  exchanges : List (Client × List Reply)

/-- `serve`, for the connections accepted before its deadline. -/
def serve : List Client → Service
  | [] => ⟨none, []⟩
  | c :: clients =>
    if !c.loopback then serve clients
    else
      let turn := respond authority path payload c
      match turn.result with
      | some result => ⟨some result, [(c, turn.sent)]⟩
      | none =>
        let rest := serve clients
        { rest with exchanges := (c, turn.sent) :: rest.exchanges }

end

/-- The path of a listener: 64 hexadecimal digits. -/
def secretPath (random : Vector UInt8 32) : List Char :=
  '/' :: random.toList.flatMap fun byte =>
    [Uuid.hexDigit (byte.toNat / 16), Uuid.hexDigit (byte.toNat % 16)]

/-! ### What is read -/

theorem received_some {chunk : List UInt8} (h : chunk ≠ []) (reads : List (Option (List UInt8))) :
    received (some chunk :: reads) = chunk ++ received reads := by
  cases chunk with
  | nil => exact absurd rfl h
  | cons b chunk => rfl

/-- What does not fit into the buffer is not looked at. -/
theorem take_append_take {α : Type} (used chunk rest : List α) (n : ℕ) :
    (used ++ chunk.take (n - used.length) ++ rest).take n = (used ++ chunk ++ rest).take n := by
  by_cases hfits : chunk.length ≤ n - used.length
  · rw [List.take_of_length_le hfits]
  · have hfull : n ≤ (used ++ chunk.take (n - used.length)).length := by
      rw [List.length_append, List.length_take]
      omega
    have hfull' : n ≤ (used ++ chunk).length := by
      rw [List.length_append]
      omega
    rw [List.take_append_of_le_length hfull, List.take_append_of_le_length hfull', List.take_append,
      List.take_append, List.take_take, Nat.min_self]

/-- The loop finds the head in the first `headerLimit` bytes of the stream, however they arrive. -/
theorem readHead_eq {used : List UInt8} (reads : List (Option (List UInt8))) {head : List UInt8}
    (hused : position emptyLine used = none) (hlength : used.length ≤ headerLimit) :
    readHead used reads = .complete head ↔
      headOf ((used ++ received reads).take headerLimit) = some head := by
  induction reads generalizing used with
  | nil =>
    rw [readHead, received, List.append_nil, List.take_of_length_le hlength, headOf, hused]
    split <;> simp
  | cons count reads ih =>
    -- Without another chunk nothing more is found.
    have hnone : headOf (used.take headerLimit) = none := by
      rw [List.take_of_length_le hlength, headOf, hused]
      rfl
    unfold readHead
    split
    next h =>
      rw [List.take_append_of_le_length (Nat.le_of_eq h.symm), hnone]
      simp
    next =>
      split
      next => simp [received, hnone]
      next => simp [received, hnone]
      next chunk hne =>
        have hlength' : (used ++ chunk.take (headerLimit - used.length)).length ≤ headerLimit := by
          rw [List.length_append, List.length_take]
          omega
        rw [received_some hne, ← List.append_assoc, ← take_append_take]
        dsimp only
        generalize used ++ chunk.take (headerLimit - used.length) = longer at hlength' ⊢
        split
        next i hi =>
          rw [List.take_append, List.take_of_length_le hlength', headOf, position_append hi,
            Option.map_some, List.take_append_of_le_length (Nat.le_of_add_right_le (position_le hi))]
          simp
        next hi => exact ih hi hlength'

/-! ### Well-formed requests -/

/-- A header line. -/
structure HeaderField where
  name : List Char
  value : List Char
  name_ne : name ≠ []
  token : ∀ c ∈ name, isTokenChar c = true
  visible : ∀ c ∈ value, isForbidden c = false

namespace HeaderField

variable (f : HeaderField)

/-- The line of the request. -/
def line : List Char := f.name ++ ':' :: f.value

/-- The value of a `Host` header. -/
def host? : Option (List Char) :=
  if eqIgnoreAsciiCase f.name "host".toList then some (hostValue f.value) else none

theorem colon_notMem : ':' ∉ f.name := fun h => absurd (f.token _ h) (by decide)

theorem return_notMem : '\r' ∉ f.line := by
  rw [line, List.mem_append, List.mem_cons, not_or, not_or]
  exact ⟨fun h => absurd (f.token _ h) (by decide), by decide,
    fun h => absurd (f.visible _ h) (by decide)⟩

end HeaderField

/-- A request for `path` with exactly one `Host`, the authority of the listener, and no body, upgrade
or transfer coding. -/
def WellFormed (authority path : List Char) (method : Method) (head : List Char) : Prop :=
  ∃ fields : List HeaderField,
    head = method.text ++ ' ' :: path ++ " HTTP/1.1".toList ++
      fields.flatMap (fun f => "\r\n".toList ++ f.line) ∧
    fields.filterMap HeaderField.host? = [authority] ∧
    ∀ f ∈ fields, announcesBody f.name f.value = false

theorem headers_line (f : HeaderField) (valid : Bool) (host : Option (List Char))
    (lines : List (List Char)) :
    headers valid host (f.line :: lines) =
      headers (valid && !(f.host?.isSome && host.isSome) && !announcesBody f.name f.value)
        (f.host?.or host) lines := by
  have hplain : (f.name.isEmpty || !f.name.all isTokenChar || f.value.any isForbidden) = false := by
    simpa [f.name_ne] using ⟨f.token, f.visible⟩
  rw [headers, HeaderField.line, splitOnce_append f.colon_notMem, HeaderField.host?]
  simp only [hplain, Bool.false_eq_true, if_false]
  generalize eqIgnoreAsciiCase f.name "host".toList = isHost
  cases isHost <;> simp

theorem headers_fields (fields : List HeaderField) {valid : Bool} {host host' : Option (List Char)} :
    headers valid host (fields.map HeaderField.line) = (true, host') ↔
      valid = true ∧ host.toList ++ fields.filterMap HeaderField.host? = host'.toList ∧
        ∀ f ∈ fields, announcesBody f.name f.value = false := by
  induction fields generalizing valid host with
  | nil => cases host <;> cases host' <;> simp [headers]
  | cons f fields ih =>
    rw [List.map_cons, headers_line, ih]
    cases hhost : f.host? with
    | none =>
      simp only [Option.isSome_none, Bool.false_and, Bool.not_false, Bool.and_true,
        Option.none_or, List.filterMap_cons_none hhost, List.forall_mem_cons, Bool.and_eq_true,
        Bool.not_eq_true']
      tauto
    | some v =>
      rw [List.filterMap_cons_some hhost, List.forall_mem_cons]
      cases host with
      | none =>
        simp
        tauto
      | some w => cases host' <;> simp

theorem of_headers {lines : List (List Char)} {valid : Bool} {host host' : Option (List Char)}
    (h : headers valid host lines = (true, host')) :
    ∃ fields : List HeaderField, lines = fields.map HeaderField.line := by
  induction lines generalizing valid host with
  | nil => exact ⟨[], rfl⟩
  | cons line lines ih =>
    rw [headers] at h
    split at h
    next => cases h
    next name value hsplit =>
      split at h
      next => cases h
      next hplain =>
        obtain ⟨fields, rfl⟩ := ih h
        simp only [Bool.or_eq_true, not_or, Bool.not_eq_true] at hplain
        refine ⟨⟨name, value, ?_, ?_, ?_⟩ :: fields, ?_⟩
        · simpa using hplain.1.1
        · simpa using hplain.1.2
        · simpa using hplain.2
        · rw [List.map_cons, (of_splitOnce hsplit).1]
          rfl

section

variable {authority path : List Char} (hspace : ' ' ∉ path) (hreturn : '\r' ∉ path)

include hspace hreturn

/-- The parser accepts the well-formed requests and no others. -/
theorem request_eq_ok {head : List Char} {method : Method} :
    request authority path head = .ok method ↔ WellFormed authority path method head := by
  constructor
  · intro h
    obtain ⟨line, lines, hlines⟩ := List.exists_cons_of_ne_nil (splitLines_ne_nil head)
    obtain ⟨word, words, hwords⟩ := List.exists_cons_of_ne_nil (splitOn_ne_nil ' ' line)
    rw [request, hlines] at h
    simp only [List.headD_cons, List.tail_cons, hwords] at h
    generalize hheaders : headers _ none lines = result at h
    split at h
    next => cases h
    next hvalid =>
      simp only [Bool.or_eq_true, not_or, Bool.not_eq_true', Bool.not_eq_false, bne_iff_ne,
        ne_eq, not_not] at hvalid
      have hresult : result = (true, some authority) := Prod.ext hvalid.1 hvalid.2
      rw [hresult] at hheaders
      obtain ⟨fields, rfl⟩ := of_headers hheaders
      obtain ⟨hversion, hhost, hbody⟩ := (headers_fields fields).1 hheaders
      split at h
      next => cases h
      next htarget =>
        -- the word in front is the method that was returned
        have hmethod : word = method.text := by
          split at h
          next hword => rw [hword, ← Except.ok.inj h]
          next =>
            split at h
            next hword => rw [hword, ← Except.ok.inj h]
            next => cases h
        -- the request line has three words
        have hline : line = method.text ++ ' ' :: path ++ " HTTP/1.1".toList := by
          obtain ⟨hthird, hlast⟩ := Bool.and_eq_true_iff.1 hversion
          rw [of_splitOn hwords, hmethod]
          match words with
          | [] | [_] => cases hthird
          | [target, version] =>
            have hversion' : version = "HTTP/1.1".toList := eq_of_beq hthird
            rw [← not_not.1 htarget, hversion']
            simp
          | _ :: _ :: _ :: _ => cases hlast
        refine ⟨fields, ?_, hhost, hbody⟩
        rw [of_splitLines hlines, hline, List.flatMap_map]
  · rintro ⟨fields, rfl, hhost, hbody⟩
    have hmethod : ' ' ∉ method.text ∧ '\r' ∉ method.text := by cases method <;> decide
    have hwords : splitOn ' ' (method.text ++ ' ' :: path ++ " HTTP/1.1".toList) =
        [method.text, path, "HTTP/1.1".toList] := by
      have hpath : path ++ " HTTP/1.1".toList = path ++ ' ' :: "HTTP/1.1".toList := rfl
      rw [List.append_assoc, List.cons_append, splitOn_append hmethod.1, hpath,
        splitOn_append hspace, splitOn_self (by decide)]
    have hlines : splitLines (method.text ++ ' ' :: path ++ " HTTP/1.1".toList ++
        fields.flatMap (fun f => "\r\n".toList ++ f.line)) =
          (method.text ++ ' ' :: path ++ " HTTP/1.1".toList) :: fields.map HeaderField.line := by
      rw [← List.flatMap_map]
      refine splitLines_join ?_ fun l hl => ?_
      · simp only [List.mem_append, List.mem_cons, not_or]
        exact ⟨⟨hmethod.2, by decide, hreturn⟩, by decide⟩
      · obtain ⟨f, -, rfl⟩ := List.mem_map.1 hl
        exact f.return_notMem
    have hheaders : headers true none (fields.map HeaderField.line) = (true, some authority) :=
      (headers_fields fields).2 ⟨rfl, hhost, hbody⟩
    rw [request, hlines]
    simp only [List.headD_cons, List.tail_cons, hwords, beq_self_eq_true, List.isEmpty_nil,
      Bool.and_self, hheaders]
    cases method <;> simp [Method.text]

end

/-! ### Answers -/

section

variable (payload : Payload) (writes : List Bool)

theorem mem_sent_deliver {served : Bool} {pieces : List Reply} {r : Reply}
    (h : r ∈ (deliver served pieces writes).2) : r ∈ pieces := by
  induction writes generalizing pieces with
  | nil => cases pieces <;> exact List.mem_of_mem_take h
  | cons ok writes ih =>
    match ok, pieces with
    | false, pieces => cases pieces <;> exact List.mem_of_mem_take h
    | true, [] => exact h
    | true, piece :: pieces =>
      obtain rfl | h := List.mem_cons.1 h
      · exact List.mem_cons_self
      · exact List.mem_cons_of_mem _ (ih h)

/-- The answer to a GET ends the listener, whatever becomes of it. -/
theorem answer_get : (answer payload .get writes).result ≠ none := by
  have hdeliver (pieces : List Reply) :
      (deliver true pieces writes).1 ∈ [.returned true, .failed runtime, .elapsed] := by
    induction writes generalizing pieces with
    | nil => cases pieces <;> simp [deliver]
    | cons ok writes ih =>
      match ok, pieces with
      | false, pieces => cases pieces <;> simp [deliver]
      | true, [] => simp [deliver]
      | true, piece :: pieces => exact ih pieces
  have houtcome := hdeliver (payload.pieces .get)
  simp only [List.mem_cons, List.not_mem_nil, or_false] at houtcome
  obtain h | h | h := houtcome <;> simp [answer, Turn.result, h]

/-- The answer to a HEAD ends it if the headers cannot be written, or the shutdown fails. -/
theorem answer_head : (answer payload .head writes).result ≠ none ↔
    ∃ rest, writes = false :: rest ∨ writes = true :: false :: rest := by
  match writes with
  | [] | [true] | false :: _ | true :: false :: _ | true :: true :: _ =>
    simp [answer, Turn.result, Payload.pieces, deliver, show (Method.head == .get) = false from rfl]

end

/-! ### Connections -/

section

variable {authority path : List Char} {payload : Payload} {method : Method} {c : Client}

/-- The client presented a well-formed request, within the limit of the buffer. -/
def Presents (authority path : List Char) (method : Method) (c : Client) : Prop :=
  c.loopback = true ∧ ∃ bytes head, headOf ((received c.reads).take headerLimit) = some bytes ∧
    decode bytes = some head ∧ WellFormed authority path method head

/-- The client asked for the headers only, and did not take them. -/
def FailingHead (authority path : List Char) (c : Client) : Prop :=
  Presents authority path .head c ∧
    ∃ writes, c.writes = false :: writes ∨ c.writes = true :: false :: writes

variable (hspace : ' ' ∉ path) (hreturn : '\r' ∉ path)

include hspace hreturn

theorem Presents.unique {method' : Method} (h : Presents authority path method c)
    (h' : Presents authority path method' c) : method = method' := by
  obtain ⟨-, bytes, head, hbytes, hhead, hformed⟩ := h
  obtain ⟨-, bytes', head', hbytes', hhead', hformed'⟩ := h'
  obtain rfl := Option.some.inj (hbytes.symm.trans hbytes')
  obtain rfl := Option.some.inj (hhead.symm.trans hhead')
  have heq := ((request_eq_ok hspace hreturn).2 hformed).symm.trans
    ((request_eq_ok hspace hreturn).2 hformed')
  exact Except.ok.inj heq

theorem respond_of_presents (h : Presents authority path method c) :
    respond authority path payload c = answer payload method c.writes := by
  obtain ⟨-, bytes, head, hbytes, hhead, hformed⟩ := h
  have hread := (@readHead_eq [] c.reads _ rfl (Nat.zero_le _)).2 hbytes
  rw [respond, hread]
  simp only [hhead, (request_eq_ok hspace hreturn).2 hformed]

/-- What happens to a client that presented no request: the listener goes on, and the client gets a
rejection at most. -/
theorem respond_of_not_presents (hloopback : c.loopback = true)
    (h : ∀ method, ¬Presents authority path method c) :
    (respond authority path payload c).result = none ∧
      ∀ r ∈ (respond authority path payload c).sent, ∃ text, r = .rejection text := by
  have hreject (status : String) : (reject status c.writes).result = none ∧
      ∀ r ∈ (reject status c.writes).sent, ∃ text, r = .rejection text := by
    refine ⟨?_, fun r hr => ⟨_, List.mem_singleton.1 hr⟩⟩
    by_cases hwrites : c.writes.length < 2 <;> simp [reject, Turn.result, hwrites]
  rw [respond]
  split
  next => exact hreject _
  next => exact ⟨rfl, nofun⟩
  next => exact ⟨rfl, nofun⟩
  next bytes hread =>
    split
    next => exact hreject _
    next head hhead =>
      split
      next => exact hreject _
      next method hok =>
        have hbytes := (@readHead_eq [] c.reads _ rfl (Nat.zero_le _)).1 hread
        exact absurd ⟨hloopback, bytes, head, hbytes, hhead, (request_eq_ok hspace hreturn).1 hok⟩
          (h method)

/-- Which connections end the listener. -/
theorem respond_result (hloopback : c.loopback = true) :
    (respond authority path payload c).result ≠ none ↔
      Presents authority path .get c ∨ FailingHead authority path c := by
  by_cases h : ∃ method, Presents authority path method c
  · obtain ⟨method, h⟩ := h
    rw [respond_of_presents hspace hreturn h]
    cases method with
    | get => exact iff_of_true (answer_get payload c.writes) (.inl h)
    | head =>
      have hget : ¬Presents authority path .get c := fun hget =>
        nomatch hget.unique hspace hreturn h
      rw [answer_head, or_iff_right hget, FailingHead, and_iff_right h]
  · have h := not_exists.1 h
    refine iff_of_false (not_not.2 (respond_of_not_presents hspace hreturn hloopback h).1) ?_
    exact not_or.2 ⟨h .get, fun hfailing => h .head hfailing.1⟩

theorem mem_sent_respond (hloopback : c.loopback = true) {r : Reply}
    (h : r ∈ (respond authority path payload c).sent) :
    (∃ text, r = .rejection text) ∨
      ∃ method, Presents authority path method c ∧ r ∈ payload.pieces method := by
  by_cases hpresents : ∃ method, Presents authority path method c
  · obtain ⟨method, hmethod⟩ := hpresents
    rw [respond_of_presents hspace hreturn hmethod] at h
    exact .inr ⟨method, hmethod, mem_sent_deliver _ h⟩
  · exact .inl ((respond_of_not_presents hspace hreturn hloopback (not_exists.1 hpresents)).2 r h)

end

/-! ### Runs -/

section

variable {authority path : List Char} {payload : Payload} {clients : List Client}

/-- Only the browser's request ends the listener and is given the payload. -/
structure Genuine (authority path : List Char) (payload : Payload) (clients : List Client) :
    Prop where
  ended : (serve authority path payload clients).result ≠ none →
    ∃ e ∈ (serve authority path payload clients).exchanges, Presents authority path .get e.1
  headers : ∀ e ∈ (serve authority path payload clients).exchanges,
    .headers payload.headers ∈ e.2 →
      Presents authority path .get e.1 ∨ Presents authority path .head e.1
  body : ∀ e ∈ (serve authority path payload clients).exchanges,
    ∀ bytes, .body bytes ∈ e.2 → Presents authority path .get e.1

theorem serve_foreign {c : Client} (h : c.loopback = false) :
    serve authority path payload (c :: clients) = serve authority path payload clients := by
  rw [serve, h]
  rfl

theorem serve_ended {c : Client} {result : Except Error Unit} (h : c.loopback = true)
    (hresult : (respond authority path payload c).result = some result) :
    serve authority path payload (c :: clients) =
      ⟨some result, [(c, (respond authority path payload c).sent)]⟩ := by
  rw [serve, h]
  simp only [Bool.not_true, Bool.false_eq_true, if_false, hresult]

theorem serve_next {c : Client} (h : c.loopback = true)
    (hresult : (respond authority path payload c).result = none) :
    serve authority path payload (c :: clients) =
      ⟨(serve authority path payload clients).result,
        (c, (respond authority path payload c).sent) ::
          (serve authority path payload clients).exchanges⟩ := by
  rw [serve, h]
  simp only [Bool.not_true, Bool.false_eq_true, if_false, hresult]

/-- Who is answered, and how. -/
theorem exchange_of_mem {e : Client × List Reply}
    (h : e ∈ (serve authority path payload clients).exchanges) :
    e.1 ∈ clients ∧ e.1.loopback = true ∧ e.2 = (respond authority path payload e.1).sent := by
  induction clients with
  | nil => cases h
  | cons c clients ih =>
    cases hloopback : c.loopback with
    | false =>
      rw [serve_foreign hloopback] at h
      exact (ih h).imp_left (List.mem_cons_of_mem _)
    | true =>
      cases hresult : (respond authority path payload c).result with
      | some result =>
        rw [serve_ended hloopback hresult] at h
        obtain rfl := List.mem_singleton.1 h
        exact ⟨List.mem_cons_self, hloopback, rfl⟩
      | none =>
        rw [serve_next hloopback hresult] at h
        obtain rfl | h := List.mem_cons.1 h
        · exact ⟨List.mem_cons_self, hloopback, rfl⟩
        · exact (ih h).imp_left (List.mem_cons_of_mem _)

/-- A listener that returned answered a connection that ended it, and none before it did. -/
theorem of_serve_result (h : (serve authority path payload clients).result ≠ none) :
    ∃ before c after, clients = before ++ c :: after ∧
      (c, (respond authority path payload c).sent) ∈
        (serve authority path payload clients).exchanges ∧
      c.loopback = true ∧ (respond authority path payload c).result ≠ none ∧
      ∀ b ∈ before, b.loopback = true → (respond authority path payload b).result = none := by
  induction clients with
  | nil => exact absurd rfl h
  | cons b clients ih =>
    cases hloopback : b.loopback with
    | false =>
      rw [serve_foreign hloopback] at h ⊢
      obtain ⟨before, c, after, rfl, hmem, hc, hresult, hbefore⟩ := ih h
      have hb : b.loopback = true → (respond authority path payload b).result = none := fun hb =>
        absurd (hloopback.symm.trans hb) Bool.false_ne_true
      exact ⟨b :: before, c, after, rfl, hmem, hc, hresult, List.forall_mem_cons.2 ⟨hb, hbefore⟩⟩
    | true =>
      cases hresult : (respond authority path payload b).result with
      | some result =>
        rw [serve_ended hloopback hresult]
        exact ⟨[], b, clients, rfl, List.mem_singleton_self _, hloopback,
          hresult.trans_ne (Option.some_ne_none _), nofun⟩
      | none =>
        rw [serve_next hloopback hresult] at h ⊢
        obtain ⟨before, c, after, rfl, hmem, hc, hends, hbefore⟩ := ih h
        exact ⟨b :: before, c, after, rfl, List.mem_cons_of_mem _ hmem, hc, hends,
          List.forall_mem_cons.2 ⟨fun _ => hresult, hbefore⟩⟩

/-- A connection that ends the listener is the last one, if it comes to it. -/
theorem serve_of_ends {c : Client} (before after : List Client) (hloopback : c.loopback = true)
    (hc : (respond authority path payload c).result ≠ none) :
    (serve authority path payload (before ++ c :: after)).result ≠ none ∧
      ∀ e ∈ (serve authority path payload (before ++ c :: after)).exchanges,
        e.1 ∈ before ∨ e.1 = c := by
  induction before with
  | nil =>
    obtain ⟨result, hresult⟩ := Option.ne_none_iff_exists'.1 hc
    rw [List.nil_append, serve_ended hloopback hresult]
    refine ⟨Option.some_ne_none _, fun e he => .inr ?_⟩
    rw [List.mem_singleton.1 he]
  | cons b before ih =>
    have hmem {e : Client × List Reply} (h : e.1 ∈ before ∨ e.1 = c) :
        e.1 ∈ b :: before ∨ e.1 = c := h.imp_left (List.mem_cons_of_mem _)
    rw [List.cons_append]
    cases hb : b.loopback with
    | false =>
      rw [serve_foreign hb]
      exact ⟨ih.1, fun e he => hmem (ih.2 e he)⟩
    | true =>
      cases hresult : (respond authority path payload b).result with
      | some result =>
        rw [serve_ended hb hresult]
        refine ⟨Option.some_ne_none _, fun e he => .inl ?_⟩
        rw [List.mem_singleton.1 he]
        exact List.mem_cons_self
      | none =>
        rw [serve_next hb hresult]
        refine ⟨ih.1, fun e he => ?_⟩
        obtain rfl | he := List.mem_cons.1 he
        · exact .inl List.mem_cons_self
        · exact hmem (ih.2 e he)

end

theorem digit_notMem_secretPath {c : Char} (hslash : c ≠ '/')
    (h : ∀ n < 16, c ≠ Uuid.hexDigit n) (random : Vector UInt8 32) : c ∉ secretPath random := by
  simp only [secretPath, List.mem_cons, List.mem_flatMap, not_or, not_exists, not_and,
    List.not_mem_nil, not_false_eq_true, and_true]
  refine ⟨hslash, fun byte _ => ⟨h _ ?_, h _ (Nat.mod_lt _ (by decide))⟩⟩
  have hlt := byte.toNat_lt
  omega

/-- Only the browser's request ends the listener if and only if every client that asked for the
headers and did not take them comes after it. -/
theorem serve_genuine_iff (authority : List Char) (random : Vector UInt8 32) (payload : Payload)
    (clients : List Client) :
    Genuine authority (secretPath random) payload clients ↔
      ∀ before c after, clients = before ++ c :: after →
        FailingHead authority (secretPath random) c →
          ∃ c' ∈ before, Presents authority (secretPath random) .get c' := by
  have hspace : ' ' ∉ secretPath random :=
    digit_notMem_secretPath (by decide) (by decide) random
  have hreturn : '\r' ∉ secretPath random :=
    digit_notMem_secretPath (by decide) (by decide) random
  constructor
  · rintro h before c after rfl hfailing
    have hloopback := hfailing.1.1
    obtain ⟨hresult, hbefore⟩ := serve_of_ends before after hloopback
      ((respond_result hspace hreturn hloopback).2 (.inr hfailing))
    obtain ⟨e, he, hget⟩ := h.ended hresult
    obtain hmem | heq := hbefore e he
    · exact ⟨e.1, hmem, hget⟩
    · rw [heq] at hget
      exact nomatch hget.unique hspace hreturn hfailing.1
  · intro h
    refine ⟨fun hresult => ?_, fun e he hheaders => ?_, fun e he bytes hbody => ?_⟩
    · obtain ⟨before, c, after, hclients, hmem, hloopback, hc, hbefore⟩ := of_serve_result hresult
      obtain hget | hfailing := (respond_result hspace hreturn hloopback).1 hc
      · exact ⟨_, hmem, hget⟩
      · obtain ⟨c', hc', hget⟩ := h before c after hclients hfailing
        exact absurd (hbefore c' hc' hget.1) ((respond_result hspace hreturn hget.1).2 (.inl hget))
    · obtain ⟨-, hloopback, hsent⟩ := exchange_of_mem he
      rw [hsent] at hheaders
      obtain ⟨text, htext⟩ | ⟨method, hmethod, -⟩ := mem_sent_respond hspace hreturn hloopback hheaders
      · cases htext
      · cases method with
        | get => exact .inl hmethod
        | head => exact .inr hmethod
    · obtain ⟨-, hloopback, hsent⟩ := exchange_of_mem he
      rw [hsent] at hbody
      obtain ⟨text, htext⟩ | ⟨method, hmethod, hpieces⟩ :=
        mem_sent_respond hspace hreturn hloopback hbody
      · cases htext
      · cases method with
        | get => exact hmethod
        | head => simp [Payload.pieces] at hpieces

/-- A client that asks for the headers in two pieces and resets the connection. -/
def probe : Client where
  loopback := true
  reads := [
    some ("HEAD ".toUTF8.toList ++ (String.ofList (secretPath (.replicate 32 0))).toUTF8.toList),
    some " HTTP/1.1\r\nHost: 127.0.0.1:1\r\n\r\n".toUTF8.toList]
  writes := [false]

/-- The listener ends with an error, though no GET was presented. -/
theorem serve_not_genuine :
    ¬Genuine "127.0.0.1:1".toList (secretPath (.replicate 32 0)) (.redirect "https://example.com/")
      [probe] := by
  have hspace : ' ' ∉ secretPath (.replicate 32 0) := by decide +kernel
  have hreturn : '\r' ∉ secretPath (.replicate 32 0) := by decide +kernel
  have hended : (serve "127.0.0.1:1".toList (secretPath (.replicate 32 0))
      (.redirect "https://example.com/") [probe]).result = some (.error runtime) := by
    decide +kernel
  have hconsumed : (respond "127.0.0.1:1".toList (secretPath (.replicate 32 0))
      (.redirect "https://example.com/") probe).consumed = false := by
    decide +kernel
  intro h
  obtain ⟨e, he, hget⟩ := h.ended (hended.trans_ne (Option.some_ne_none _))
  rw [List.mem_singleton.1 (exchange_of_mem he).1] at hget
  rw [respond_of_presents hspace hreturn hget] at hconsumed
  cases hconsumed

end Ocvpn.Bootstrap

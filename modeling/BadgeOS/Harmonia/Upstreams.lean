import BadgeOS.Harmonia.Job
import BadgeOS.Lib.Transition

/-!
# Asking the upstreams in turn

`first_narinfo` goes through the configured upstreams: one that is down is skipped, twice
checked, the others are sent a GET, and the first body that comes back ends the loop.  Whether
that body is a narinfo is found out later, by the two callers.  One lookup is a small state
machine here; between any two of its steps time passes and other requests may time out on any
upstream, so the map of the ones that are down changes under it.

* `Reply.getText` — what `get_text` makes of an upstream's answer;
* `Lookup.step` — the loop, with the checks where the code has them;
* `lookup_found` — a finished lookup has found the first body among the upstreams that are not
  down, `Lookup.live`;
* `lookup_answers_iff` — its answer is the first good narinfo among them just when no broken
  body stands before it.

`parse` is `parse_upstream_narinfo`; it goes through the store library's own parsers of paths
and hashes, and nothing here depends on what it accepts.
-/

namespace BadgeOS.Harmonia

open Function Transition

/-! ### Answers of an upstream -/

/-- A `reqwest::Error`: its text, and `is_timeout`. -/
structure RequestError where
  text : String
  isTimeout : Bool

/-- How a GET goes: no response, or a status and what reading the body gives. -/
inductive Reply
  | noResponse (e : RequestError)
  | response (status : ℕ) (body : Except RequestError String)

/-- `get_text` of a GET that was sent. -/
def Reply.getText : Reply → Except String (Option String)
  | .noResponse e => .error s!"upstream GET: {e.text}"
  | .response status body =>
      if status = 404 then .ok none
      -- `error_for_status`
      else if 400 ≤ status ∧ status < 600 then .error s!"upstream status: {status}"
      else match body with
        | .ok text => .ok (some text)
        | .error e => .error s!"upstream body: {e.text}"

/-- A call of `timed_out` on the way finds a timeout. -/
def Reply.timedOut : Reply → Bool
  | .noResponse e => e.isTimeout
  | .response status body =>
      match body with
      | .error e => e.isTimeout && !(400 ≤ status && status < 600)
      | .ok _ => false

/-- A configured upstream, and the answer it gives to this lookup's GET. -/
structure Offer where
  upstream : String
  reply : Reply

/-- The body that ends the loop. -/
def Offer.body? (o : Offer) : Option String :=
  match o.reply.getText with
  | .ok text => text
  | .error _ => none

/-- The narinfo of the path `hash`, from an upstream that gives a good one. -/
def Offer.narinfo? (parse : String → Except String UpstreamNarInfo) (hash : String) (o : Offer) :
    Option (String × UpstreamNarInfo) :=
  o.body?.bind fun text =>
    match parse text with
    | .ok up => if up.storePathHash = hash then some (o.upstream, up) else none
    | .error _ => none

/-! ### The loop -/

/-- Where a lookup stands. -/
inductive LookupPhase
  /-- At the head of the loop. -/
  | trying (rest : List Offer)
  /-- Past the loop's check, not yet past the one in `send`. -/
  | sending (offer : Offer) (rest : List Offer)
  /-- The request is out. -/
  | asked (offer : Offer) (rest : List Offer)
  /-- `first_narinfo` returned, with `rest` never looked at. -/
  | returned (found : Option (String × String)) (rest : List Offer)

/-- An upstream the lookup is done with, and when. -/
structure Visit where
  offer : Offer
  time : ℕ
  skipped : Bool

/-- A lookup, and the server's map of the upstreams that are down. -/
structure Lookup where
  now : ℕ
  /-- Until when an upstream is down. -/
  down : String → Option ℕ
  /-- Every timeout there was: of which upstream, and when. -/
  timeouts : List (String × ℕ)
  visited : List Visit
  phase : LookupPhase

/-- A lookup over the configured upstreams, in a server that no upstream failed yet. -/
def Lookup.new (offers : List Offer) : Lookup :=
  { now := 0, down := fun _ => none, timeouts := [], visited := [], phase := .trying offers }

/-- `upstream_down`. -/
def Lookup.upstreamDown (s : Lookup) (upstream : String) : Bool :=
  match s.down upstream with
  | some till => s.now < till
  | none => false

/-- `mark_upstream_down`, after a timeout. -/
def Lookup.markUpstreamDown (retrySecs : ℕ) (s : Lookup) (upstream : String) : Lookup :=
  { s with down := update s.down upstream (some (s.now + retrySecs))
           timeouts := s.timeouts ++ [(upstream, s.now)] }

/-- The lookup is done with an upstream and goes to the next. -/
def Lookup.leave (s : Lookup) (offer : Offer) (skipped : Bool) (phase : LookupPhase) : Lookup :=
  { s with visited := s.visited ++ [⟨offer, s.now, skipped⟩], phase }

/-- What can happen next. -/
inductive LookupEvent
  /-- Time passes. -/
  | tick (n : ℕ)
  /-- Another request, a NAR's too, timed out on an upstream. -/
  | elsewhere (upstream : String)
  /-- The head of the loop, with its check. -/
  | next
  /-- The check in `send`, and the request. -/
  | send
  /-- The answer, or what there is instead. -/
  | answer

/-- One event. -/
def Lookup.step (retrySecs : ℕ) (s : Lookup) : LookupEvent → Option Lookup
  | .tick n => some { s with now := s.now + n }
  | .elsewhere upstream => some (s.markUpstreamDown retrySecs upstream)
  | .next =>
      match s.phase with
      | .trying [] => some { s with phase := .returned none [] }
      | .trying (o :: rest) =>
          if s.upstreamDown o.upstream then some (s.leave o true (.trying rest))
          else some { s with phase := .sending o rest }
      | _ => none
  | .send =>
      match s.phase with
      | .sending o rest =>
          -- `get_text` fails with "upstream down, skipped"
          if s.upstreamDown o.upstream then some (s.leave o true (.trying rest))
          else some { s with phase := .asked o rest }
      | _ => none
  | .answer =>
      match s.phase with
      | .asked o rest =>
          let s := if o.reply.timedOut then s.markUpstreamDown retrySecs o.upstream else s
          match o.body? with
          | some text => some (s.leave o false (.returned (some (o.upstream, text)) rest))
          | none => some (s.leave o false (.trying rest))
      | _ => none

/-- What the miss path of `narinfo::get` answers: a narinfo with the upstream it came from, or
a 404.  `get_or_fetch_upstream` makes the same of it, with an error for the 404. -/
def missAnswer (parse : String → Except String UpstreamNarInfo) (found : Option (String × String)) :
    Option (String × UpstreamNarInfo) :=
  match found with
  | some (upstream, text) =>
      match parse text with
      | .ok up => some (upstream, up)
      | .error _ => none
  | none => none

variable {parse : String → Except String UpstreamNarInfo} {hash : String} {retrySecs : ℕ}
  {s s' : Lookup}

/-! ### What is asked for -/

/-- The upstreams a phase is still to deal with, or never looked at. -/
def LookupPhase.pending : LookupPhase → List Offer
  | .trying rest | .returned _ rest => rest
  | .sending o rest | .asked o rest => o :: rest

/-- What the lookup has found. -/
def LookupPhase.found : LookupPhase → Option (String × String)
  | .returned found _ => found
  | _ => none

/-- The upstreams that were asked, in order. -/
def Lookup.asked (s : Lookup) : List Offer :=
  (s.visited.filter fun v => !v.skipped).map Visit.offer

/-- The upstreams that are not down, in order: those that were asked, and of those the lookup
never came to the ones that are not down now. -/
def Lookup.live (s : Lookup) : List Offer :=
  s.asked ++ s.phase.pending.filter fun o => !s.upstreamDown o.upstream

/-- The first of some upstreams that gives a good narinfo of the path. -/
def firstGood (parse : String → Except String UpstreamNarInfo) (hash : String)
    (offers : List Offer) : Option (String × UpstreamNarInfo) :=
  offers.findSome? (Offer.narinfo? parse hash)

/-- The first of some upstreams that answers with a body. -/
def firstBody (offers : List Offer) : Option (String × String) :=
  offers.findSome? fun o => o.body?.map fun text => (o.upstream, text)

/-- The body of an upstream is a narinfo, of whichever path. -/
def Offer.parses (parse : String → Except String UpstreamNarInfo) (o : Offer) : Bool :=
  match o.body? with
  | some text => (parse text).isOk
  | none => false

/-- No broken body stands before a good narinfo: the first upstream that answers with a body
gives a good one, or its body is no narinfo at all and no upstream gives a good one. -/
def nothingHidden (parse : String → Except String UpstreamNarInfo) (hash : String)
    (offers : List Offer) : Bool :=
  match offers.find? fun o => o.body?.isSome with
  | none => true
  | some o => (o.narinfo? parse hash).isSome ||
      !o.parses parse && offers.all fun p => (p.narinfo? parse hash).isNone

theorem Offer.narinfo?_of_no_body {o : Offer} (h : o.body? = none) :
    o.narinfo? parse hash = none := by
  simp only [Offer.narinfo?, h, Option.bind_none]

/-- A good narinfo is of the path that was asked for. -/
theorem Offer.narinfo?_hash {o : Offer} {upstream : String} {up : UpstreamNarInfo}
    (h : o.narinfo? parse hash = some (upstream, up)) : up.storePathHash = hash := by
  unfold Offer.narinfo? at h
  obtain ⟨text, _, h⟩ := Option.bind_eq_some_iff.mp h
  split at h
  · split at h
    · rename_i hh
      cases h
      exact hh
    · cases h
  · cases h

/-- An upstream without a body changes nothing. -/
theorem nothingHidden_cons {o : Offer} {offers : List Offer} (h : o.body? = none) :
    nothingHidden parse hash (o :: offers) = nothingHidden parse hash offers := by
  have hfind : (o :: offers).find? (fun o => o.body?.isSome) =
      offers.find? fun o => o.body?.isSome := by
    rw [List.find?_cons_of_neg]
    simp [h]
  unfold nothingHidden
  rw [hfind]
  simp only [List.all_cons, Offer.narinfo?_of_no_body h, Option.isNone_none, Bool.true_and]

/-- **The first body against the first good narinfo.**  Answering with the first body is
answering with the first good narinfo just when nothing is hidden. -/
theorem missAnswer_firstBody_iff (offers : List Offer) :
    missAnswer parse (firstBody offers) = firstGood parse hash offers ↔
      nothingHidden parse hash offers = true := by
  induction offers with
  | nil => exact ⟨fun _ => rfl, fun _ => rfl⟩
  | cons o offers ih =>
      cases hb : o.body? with
      | none =>
          rw [nothingHidden_cons hb, ← ih]
          simp only [firstBody, firstGood, List.findSome?_cons, hb, Option.map_none,
            Offer.narinfo?_of_no_body hb]
      | some text =>
          have hfirst : firstBody (o :: offers) = some (o.upstream, text) := by
            simp [firstBody, hb]
          have hfind : (o :: offers).find? (fun o => o.body?.isSome) = some o := by
            rw [List.find?_cons_of_pos]
            simp [hb]
          have hhidden : nothingHidden parse hash (o :: offers) =
              ((o.narinfo? parse hash).isSome || !(parse text).isOk &&
                (o :: offers).all fun p => (p.narinfo? parse hash).isNone) := by
            unfold nothingHidden
            rw [hfind]
            simp only [Offer.parses, hb]
          rw [hhidden, hfirst]
          cases hp : parse text with
          | error e =>
              -- the body is no narinfo: the answer is a 404
              have hnone : o.narinfo? parse hash = none := by simp [Offer.narinfo?, hb, hp]
              have hans : missAnswer parse (some (o.upstream, text)) = none := by
                simp [missAnswer, hp]
              rw [hans, hnone, eq_comm]
              simp [firstGood, List.findSome?_eq_none_iff, Except.isOk, Except.toBool]
          | ok up =>
              have hans : missAnswer parse (some (o.upstream, text)) = some (o.upstream, up) := by
                simp [missAnswer, hp]
              rw [hans]
              by_cases hh : up.storePathHash = hash
              · have hgood : o.narinfo? parse hash = some (o.upstream, up) := by
                  simp [Offer.narinfo?, hb, hp, hh]
                simp [firstGood, hgood]
              · -- a narinfo of another path is served
                have hnone : o.narinfo? parse hash = none := by
                  simp [Offer.narinfo?, hb, hp, hh]
                have hne : some (o.upstream, up) ≠ firstGood parse hash (o :: offers) := by
                  intro heq
                  obtain ⟨p, _, hgood⟩ := List.exists_of_findSome?_eq_some heq.symm
                  exact hh (Offer.narinfo?_hash hgood)
                simp [hne, hnone, Except.isOk, Except.toBool]

/-! ### Every run -/

/-- A timeout of the upstream itself explains that it is down at `time`. -/
def Lookup.TimedOutBefore (retrySecs : ℕ) (s : Lookup) (upstream : String) (time : ℕ) : Prop :=
  ∃ t, (upstream, t) ∈ s.timeouts ∧ t ≤ time ∧ time < t + retrySecs

/-- The invariant of a lookup. -/
structure Lookup.Inv (retrySecs : ℕ) (offers : List Offer) (s : Lookup) : Prop where
  /-- Every upstream is dealt with once, in order. -/
  order : s.visited.map Visit.offer ++ s.phase.pending = offers
  /-- An entry of the map comes from a timeout of its upstream. -/
  down : ∀ upstream till, s.down upstream = some till →
    ∃ t, (upstream, t) ∈ s.timeouts ∧ t ≤ s.now ∧ till = t + retrySecs
  skipped : ∀ v ∈ s.visited, v.skipped = true →
    s.TimedOutBefore retrySecs v.offer.upstream v.time
  /-- The loop goes on only past upstreams without a body. -/
  found : firstBody s.asked = s.phase.found
  exhausted : ∀ rest, s.phase = .returned none rest → rest = []

theorem Lookup.Inv.new (offers : List Offer) : (Lookup.new offers).Inv retrySecs offers where
  order := rfl
  down := by
    intro upstream till h
    cases h
  skipped := by
    intro v hv
    cases hv
  found := rfl
  exhausted := by
    intro rest h
    cases h

theorem Lookup.TimedOutBefore.mono {upstream : String} {time : ℕ}
    (h : s.TimedOutBefore retrySecs upstream time) (hsub : s.timeouts ⊆ s'.timeouts) :
    s'.TimedOutBefore retrySecs upstream time := by
  obtain ⟨t, ht, hle, hlt⟩ := h
  exact ⟨t, hsub ht, hle, hlt⟩

/-- An upstream that is down timed out less than `retrySecs` ago. -/
theorem Lookup.Inv.of_down {offers : List Offer} {upstream : String}
    (hI : s.Inv retrySecs offers) (h : s.upstreamDown upstream = true) :
    s.TimedOutBefore retrySecs upstream s.now := by
  unfold Lookup.upstreamDown at h
  split at h
  · rename_i till htill
    obtain ⟨t, ht, hle, rfl⟩ := hI.down upstream till htill
    exact ⟨t, ht, hle, of_decide_eq_true h⟩
  · cases h

/-- Another timeout keeps the invariant. -/
theorem Lookup.Inv.markUpstreamDown {offers : List Offer} (hI : s.Inv retrySecs offers)
    (upstream : String) : (s.markUpstreamDown retrySecs upstream).Inv retrySecs offers := by
  obtain ⟨horder, hdown, hskipped, hfound, hexhausted⟩ := hI
  refine ⟨horder, ?_, ?_, hfound, hexhausted⟩
  · intro u till hu
    by_cases huu : u = upstream
    · subst huu
      have htill : update s.down u (some (s.now + retrySecs)) u = some till := hu
      rw [update_self] at htill
      cases htill
      exact ⟨s.now, by simp [Lookup.markUpstreamDown], le_refl _, rfl⟩
    · have htill : update s.down upstream (some (s.now + retrySecs)) u = some till := hu
      rw [update_of_ne huu] at htill
      obtain ⟨t, ht, hle, heq⟩ := hdown u till htill
      exact ⟨t, List.mem_append_left _ ht, hle, heq⟩
  · intro v hv hsk
    exact (hskipped v hv hsk).mono (List.subset_append_left _ _)

/-- Leaving an upstream keeps the invariant: one that is down, or one that was asked and whose
body, if it gave one, is what the lookup has found. -/
theorem Lookup.Inv.leave {offers rest : List Offer} {o : Offer} {skipped : Bool}
    {phase : LookupPhase} (hI : s.Inv retrySecs offers) (hpending : s.phase.pending = o :: rest)
    (hfound : s.phase.found = none) (hrest : phase.pending = rest)
    (hdown : skipped = true → s.upstreamDown o.upstream = true ∧ phase.found = none)
    (hasked : skipped = false → phase.found = o.body?.map fun text => (o.upstream, text))
    (hnone : ∀ rest, phase = .returned none rest → rest = []) :
    (s.leave o skipped phase).Inv retrySecs offers where
  order := by
    show (s.visited ++ [Visit.mk o s.now skipped]).map Visit.offer ++ phase.pending = offers
    rw [hrest, ← hI.order, hpending]
    simp
  down := hI.down
  skipped := by
    intro v hv hsk
    rcases List.mem_append.mp hv with hold | hnew
    · exact hI.skipped v hold hsk
    · obtain rfl := List.mem_singleton.mp hnew
      exact hI.of_down (hdown hsk).1
  found := by
    have hbefore := hI.found
    rw [hfound] at hbefore
    cases skipped with
    | true =>
        have hsame : (s.leave o true phase).asked = s.asked := by
          simp [Lookup.asked, Lookup.leave]
        rw [hsame, hbefore]
        exact (hdown rfl).2.symm
    | false =>
        have hmore : (s.leave o false phase).asked = s.asked ++ [o] := by
          simp [Lookup.asked, Lookup.leave]
        have hlast : firstBody [o] = o.body?.map fun text => (o.upstream, text) := by
          cases hb : o.body? <;> simp [firstBody, hb]
        rw [hmore]
        show firstBody (s.asked ++ [o]) = phase.found
        rw [firstBody, List.findSome?_append]
        show (firstBody s.asked).or (firstBody [o]) = phase.found
        rw [hbefore, Option.none_or, hlast, hasked rfl]
  exhausted := hnone

/-- A step that moves on without leaving an upstream keeps the invariant. -/
theorem Lookup.Inv.moved {offers : List Offer} {phase : LookupPhase}
    (hI : s.Inv retrySecs offers) (hpending : phase.pending = s.phase.pending)
    (hfound : phase.found = s.phase.found)
    (hnone : ∀ rest, phase = .returned none rest → rest = []) :
    Lookup.Inv retrySecs offers { s with phase } where
  order := by
    show s.visited.map Visit.offer ++ phase.pending = offers
    rw [hpending]
    exact hI.order
  down := hI.down
  skipped := hI.skipped
  found := hI.found.trans hfound.symm
  exhausted := hnone

/-- **One event keeps the invariant.** -/
theorem Lookup.Inv.step {offers : List Offer} {e : LookupEvent} (hI : s.Inv retrySecs offers)
    (h : s.step retrySecs e = some s') : s'.Inv retrySecs offers := by
  cases e with
  | tick n =>
      cases h
      refine ⟨hI.order, ?_, hI.skipped, hI.found, hI.exhausted⟩
      intro upstream till htill
      obtain ⟨t, ht, hle, heq⟩ := hI.down upstream till htill
      exact ⟨t, ht, Nat.le_add_right_of_le hle, heq⟩
  | elsewhere upstream =>
      cases h
      exact hI.markUpstreamDown upstream
  | next =>
      simp only [Lookup.step] at h
      split at h
      · rename_i hp
        cases h
        refine hI.moved (by rw [hp]; rfl) (by rw [hp]; rfl) ?_
        intro rest hrest
        cases hrest
        rfl
      · rename_i o rest hp
        split at h
        · rename_i hdown
          cases h
          exact hI.leave (by rw [hp]; rfl) (by rw [hp]; rfl) rfl (fun _ => ⟨hdown, rfl⟩)
            (by simp) (by simp)
        · cases h
          exact hI.moved (by rw [hp]; rfl) (by rw [hp]; rfl) (by simp)
      · cases h
  | send =>
      simp only [Lookup.step] at h
      split at h
      · rename_i o rest hp
        split at h
        · rename_i hdown
          cases h
          exact hI.leave (by rw [hp]; rfl) (by rw [hp]; rfl) rfl (fun _ => ⟨hdown, rfl⟩)
            (by simp) (by simp)
        · cases h
          exact hI.moved (by rw [hp]; rfl) (by rw [hp]; rfl) (by simp)
      · cases h
  | answer =>
      simp only [Lookup.step] at h
      split at h
      · rename_i o rest hp
        generalize ht : (if o.reply.timedOut = true then s.markUpstreamDown retrySecs o.upstream
          else s) = t at h
        -- a timeout on the way marks the upstream down first
        have htI : t.Inv retrySecs offers := by
          rw [← ht]
          split
          · exact hI.markUpstreamDown o.upstream
          · exact hI
        have htp : t.phase = .asked o rest := by
          rw [← ht]
          split
          · exact hp
          · exact hp
        split at h
        · rename_i text hb
          cases h
          exact htI.leave (by rw [htp]; rfl) (by rw [htp]; rfl) rfl (by simp)
            (by simp [LookupPhase.found, hb]) (by simp)
        · rename_i hb
          cases h
          exact htI.leave (by rw [htp]; rfl) (by rw [htp]; rfl) rfl (by simp)
            (by simp [LookupPhase.found, hb]) (by simp)
      · cases h

theorem Lookup.Inv.of_run {offers : List Offer} {es : List LookupEvent}
    (h : Run (Lookup.step retrySecs) (Lookup.new offers) es s) : s.Inv retrySecs offers :=
  h.invariant (fun _ _ _ hI _ hstep => hI.step hstep) (.new offers)

/-- **What a lookup finds.**  A lookup that has returned has found the first body among the
upstreams that are not down. -/
theorem lookup_found {offers rest : List Offer} {es : List LookupEvent}
    {found : Option (String × String)}
    (h : Run (Lookup.step retrySecs) (Lookup.new offers) es s)
    (hr : s.phase = .returned found rest) : found = firstBody s.live := by
  have hI := Lookup.Inv.of_run h
  have hfound : firstBody s.asked = found := by
    rw [hI.found, hr]
    rfl
  have hlive : firstBody s.live = (firstBody s.asked).or
      (firstBody (rest.filter fun o => !s.upstreamDown o.upstream)) := by
    rw [Lookup.live, hr]
    exact List.findSome?_append
  rw [hlive, hfound]
  cases found with
  | some found => rfl
  | none =>
      obtain rfl := hI.exhausted rest hr
      rfl

/-- **The answer to a miss.**  A lookup that has returned dealt with the configured upstreams
in order and skipped one only within `retrySecs` of a timeout of its own.  What the caller
makes of its result is the first good narinfo among the upstreams that are not down just when
nothing is hidden among them. -/
theorem lookup_answers_iff {offers rest : List Offer} {es : List LookupEvent}
    {found : Option (String × String)}
    (h : Run (Lookup.step retrySecs) (Lookup.new offers) es s)
    (hr : s.phase = .returned found rest) :
    (missAnswer parse found = firstGood parse hash s.live ↔ nothingHidden parse hash s.live = true) ∧
    s.visited.map Visit.offer ++ rest = offers ∧
    ∀ v ∈ s.visited, v.skipped = true → s.TimedOutBefore retrySecs v.offer.upstream v.time := by
  have hI := Lookup.Inv.of_run h
  refine ⟨?_, ?_, hI.skipped⟩
  · rw [lookup_found h hr]
    exact missAnswer_firstBody_iff s.live
  · have horder := hI.order
    rw [hr] at horder
    exact horder

/-! ### Every lookup returns -/

/-- The steps of its own that a lookup can still take. -/
def LookupPhase.stepsLeft : LookupPhase → ℕ
  | .trying rest => 3 * rest.length + 1
  | .sending _ rest => 3 * rest.length + 3
  | .asked _ rest => 3 * rest.length + 2
  | .returned _ _ => 0

/-- A lookup that has not returned has a step of its own, and takes it closer to its end. -/
theorem Lookup.exists_step (retrySecs : ℕ) (s : Lookup) (h : s.phase.stepsLeft ≠ 0) :
    ∃ e s', s.step retrySecs e = some s' ∧ s'.phase.stepsLeft < s.phase.stepsLeft := by
  cases hp : s.phase with
  | trying rest =>
      cases rest with
      | nil =>
          refine ⟨.next, { s with phase := .returned none [] }, by simp only [step, hp], ?_⟩
          show 0 < _
          simp [LookupPhase.stepsLeft]
      | cons o rest =>
          cases hd : s.upstreamDown o.upstream with
          | true =>
              refine ⟨.next, s.leave o true (.trying rest), by simp [step, hp, hd], ?_⟩
              show 3 * rest.length + 1 < 3 * (rest.length + 1) + 1
              omega
          | false =>
              refine ⟨.next, { s with phase := .sending o rest }, by simp [step, hp, hd], ?_⟩
              show 3 * rest.length + 3 < 3 * (rest.length + 1) + 1
              omega
  | sending o rest =>
      cases hd : s.upstreamDown o.upstream with
      | true =>
          refine ⟨.send, s.leave o true (.trying rest), by simp [step, hp, hd], ?_⟩
          show 3 * rest.length + 1 < 3 * rest.length + 3
          omega
      | false =>
          refine ⟨.send, { s with phase := .asked o rest }, by simp [step, hp, hd], ?_⟩
          show 3 * rest.length + 2 < 3 * rest.length + 3
          omega
  | asked o rest =>
      cases hb : o.body? with
      | some text =>
          refine ⟨.answer, _, by simp only [step, hp, hb]; rfl, ?_⟩
          show 0 < 3 * rest.length + 2
          omega
      | none =>
          refine ⟨.answer, _, by simp only [step, hp, hb]; rfl, ?_⟩
          show 3 * rest.length + 1 < 3 * rest.length + 2
          omega
  | returned found rest =>
      rw [hp] at h
      exact absurd rfl h

/-- Whatever its upstreams answer and whichever are down, a lookup returns. -/
theorem Lookup.returns (retrySecs : ℕ) (s : Lookup) :
    ∃ es s', Run (Lookup.step retrySecs) s es s' ∧ s'.phase.stepsLeft = 0 := by
  induction hn : s.phase.stepsLeft using Nat.strong_induction_on generalizing s with
  | _ n ih =>
      by_cases h0 : s.phase.stepsLeft = 0
      · exact ⟨[], s, .nil, h0⟩
      · obtain ⟨e, t, hstep, hlt⟩ := s.exists_step retrySecs h0
        obtain ⟨es, u, hrun, hu⟩ := ih _ (hn ▸ hlt) t rfl
        exact ⟨e :: es, u, .cons trivial hstep hrun, hu⟩

/-! ### A broken body first -/

/-- A parser that knows one narinfo. -/
def knowsOne (text : String) : Except String UpstreamNarInfo :=
  if text = "StorePath: /nix/store/h-hello" then .ok ⟨"h", "n", 3, "xz"⟩
  else .error "upstream narinfo: no StorePath"

/-- An upstream that refuses the connection, then one that has the narinfo. -/
def refusedThenGood : List Offer :=
  [⟨"http://a", .noResponse ⟨"connection refused", false⟩⟩,
    ⟨"http://b", .response 200 (.ok "StorePath: /nix/store/h-hello")⟩]

/-- The second upstream answers, since nothing is hidden. -/
theorem lookup_answers_iff_refused :
    ∃ s found rest, Run (Lookup.step 60) (Lookup.new refusedThenGood)
        [.next, .send, .answer, .next, .send, .answer] s ∧ s.phase = .returned found rest ∧
      missAnswer knowsOne found = firstGood knowsOne "h" s.live ∧
      missAnswer knowsOne found = some ("http://b", ⟨"h", "n", 3, "xz"⟩) := by
  have hrun : Run (Lookup.step 60) (Lookup.new refusedThenGood)
      [.next, .send, .answer, .next, .send, .answer] _ := run_of_runFrom rfl
  exact ⟨_, _, _, hrun, rfl, (lookup_answers_iff hrun rfl).1.2 (by decide), by decide⟩

/-- An upstream that answers every request with a login page hides the one after it. -/
theorem login_page_hides_narinfo :
    ¬ ∀ (parse : String → Except String UpstreamNarInfo) (hash : String) (retrySecs : ℕ)
      (offers rest : List Offer) (es : List LookupEvent) (s : Lookup)
      (found : Option (String × String)),
      Run (Lookup.step retrySecs) (Lookup.new offers) es s → s.phase = .returned found rest →
      missAnswer parse found = firstGood parse hash s.live := by
  intro hclaim
  have hrun : Run (Lookup.step 60)
      (Lookup.new (⟨"http://portal", .response 200 (.ok "<html>Log in</html>")⟩ :: refusedThenGood))
      [.next, .send, .answer] _ := run_of_runFrom rfl
  have heq := hclaim knowsOne "h" 60 _ _ _ _ _ hrun rfl
  exact absurd heq (by decide)

end BadgeOS.Harmonia

import ContinuityLedger.Foundations.IntText
import ContinuityLedger.Foundations.Listing
import ContinuityLedger.CallLog.Idle

/-! Reading the call log in pages: what a page takes of the entries, and that the pages of a well-formed log hold every entry that
is wanted. A page read behind the lock begins with the entry that the head names. -/

namespace ContinuityLedger.CallLog

open Foundations Foundations.Sha256 Foundations.Codec Foundations.Calendar Foundations.Timestamps Foundations.Json Rotation

/-! ### A page -/

structure Wanted where
  tool : Option PyStr
  client : Option PyStr
  since : Option PyStr

structure Page where
  entries : List Json
  nextCursor : Option PyStr

/-- An empty text filters nothing. -/
def asked (text : Option PyStr) : Option PyStr := text.filter (· ≠ [])

/-- `s < t`. -/
def textLt (s t : PyStr) : Bool := s.map PyStr.code < t.map PyStr.code

/-- `j == s`. -/
def isText (j : Json) (s : PyStr) : Bool :=
  match j with
  | .str t => t = s
  | _ => false

/-- `j >= n`. -/
def Runtime.reaches (rt : Runtime) (n : ℤ) (j : Json) : Except Raised Bool :=
  match j with
  | .int m => .ok (n ≤ m)
  | .bool b => .ok (n ≤ if b then 1 else 0)
  | .float t => .ok (rt.atLeast t n)
  | _ => .error .type

/-- A condition that is there only with something to ask for. -/
def ifAsked {A : Type} (a : Option A) (holds : A → Except Raised Bool) : Except Raised Bool := a.elim (.ok false) holds

inductive Verdict
  | skip
  | stop
  | take

/-- What the loop does with an entry: those up to the cursor are skipped, and the first that is older than `since` ends it. -/
def Runtime.judge (rt : Runtime) (w : Wanted) (before : Option ℤ) (e : Json) : Except Raised Verdict := do
  if ← ifAsked before fun n => getOr e "seq" (.int 0) >>= rt.reaches n then return .skip
  else if ← ifAsked (asked w.since) fun s => (textLt · s) <$> (getOr e "ts" (.str []) >>= rt.strOf) then return .stop
  else if ← ifAsked (asked w.tool) fun t => (!isText · t) <$> getOr e "tool" .null then return .skip
  else if ← ifAsked (asked w.client) fun c => do
    let name ← getOr e "client_name" .null
    let name ← rt.strOf (if Mcp.truthy name then name else .str [])
    return !decide (rt.lower c <:+: rt.lower name) then return .skip
  else return .take

/-- The loop of `_query_unlocked`: an entry that raises ends it. -/
def Runtime.fill (rt : Runtime) (w : Wanted) (before : Option ℤ) (limit : ℤ) :
    List (Except Raised Json) → List Json → Except Raised (List Json × Bool)
  | [], out => .ok (out, false)
  | e :: es, out => do
    let e ← e
    match ← rt.judge w before e with
    | .skip => rt.fill w before limit es out
    | .stop => return (out, false)
    | .take => if limit ≤ out.length then return (out, true) else rt.fill w before limit es (out ++ [e])

/-- `_query_unlocked`. -/
def Runtime.pageOf (rt : Runtime) (w : Wanted) (before : Option ℤ) (limit : ℤ) (es : List (Except Raised Json)) :
    Except Raised Page := do
  let (out, more) ← rt.fill w before limit es []
  match if more then out.getLast? else none with
  | none => return ⟨out, none⟩
  | some last => return ⟨out, some (← subscript last "seq" >>= rt.strOf)⟩

/-- `query`, where no summary is open: those that are, it appends first. -/
def Runtime.query (rt : Runtime) (disk : Disk) (w : Wanted) (before : Option ℤ) (limit : ℤ) : Except Raised Page :=
  rt.pageOf w before limit (rt.entriesDesc disk)

/-! ### A snapshot -/

/-- A daily file at the time of the snapshot, and what its handle reads where it is held open. -/
structure Sized where
  name : String
  size : ℕ
  handle : Option Bytes

/-- `snapshot_pinned_files`, of the setting where it is a number. -/
def snapshotPinnedFiles (setting : Option ℤ) : ℕ := (max 1 (setting.getD 8)).toNat

/-- `_snapshot`: the newest few are held open. -/
def snapshot (pinned : ℕ) (disk : Disk) : List Sized :=
  disk.daily.zipIdx.map fun f =>
    ⟨f.1.1, f.1.2.length, if disk.daily.length - pinned ≤ f.2 then some f.1.2 else none⟩

/-- `entries_desc` of a snapshot: a file that is not held open is read as it is by then, and raises where it has gone. -/
def Runtime.snapshotDesc (rt : Runtime) (files : List Sized) (later : Disk) : List (Except Raised Json) :=
  files.reverse.flatMap fun f =>
    match f.handle.or (later.files.get f.name) with
    | some bytes => rt.entriesOf bytes f.size
    | none => [.error .callLog]

/-- `query_with_head`, with the head and the sizes as of `disk`, and the files that are opened only then as of `later`. Where no
handle can be kept, all of it is read under the lock. -/
def Runtime.queryWithHead (rt : Runtime) (pinByHandle : Bool) (setting : Option ℤ) (disk later : Disk) (w : Wanted)
    (before : Option ℤ) (limit : ℤ) : Except Raised (Page × Head) := do
  let head ← rt.head disk
  let entries := if pinByHandle then rt.snapshotDesc (snapshot (snapshotPinnedFiles setting) disk) later else rt.entriesDesc disk
  let page ← rt.pageOf w before limit entries
  return (page, head)

/-! ### Well-formed logs -/

variable {rt : Runtime} {cfg : Config}

namespace Line

variable (l : Line rt cfg)

def seq : ℤ := l.chain.seq + 1

def ts : PyStr := PyStr.ofString (normTs cfg.pads l.now)

/-- `entry.get(name)`. -/
def value (name : String) : Json := (member l.members name).getD .null

end Line

/-- The daily files hold whole lines, with the numbers going up and the times never down. -/
structure WellFormed (disk : Disk) (segments : Filled rt cfg) : Prop where
  daily : disk.daily = filesOf segments
  filled : ∀ m ∈ segments, m.2 ≠ []
  numbers : (entries segments).Pairwise fun a b => a.seq < b.seq
  times : (entries segments).Pairwise fun a b => textLt b.ts a.ts = false

/-- `str(name or "")` of what is no list, no dict and no float. -/
def clientText : Json → PyStr
  | .str s => s
  | .bool b => PyStr.ofString (if b then "True" else "")
  | .int n => PyStr.ofString (if n = 0 then "" else toString n)
  | _ => []

/-- The entry is by the tool and by a client whose name has the text in it, whatever its case. -/
def Wanted.Picks (w : Wanted) (l : Line rt cfg) : Bool :=
  (asked w.tool).all (isText (l.value "tool")) &&
    (asked w.client).all fun c => rt.lower c <:+: rt.lower (clientText (l.value "client_name"))

def Wanted.Matches (w : Wanted) (l : Line rt cfg) : Bool :=
  w.Picks l && (asked w.since).all fun s => !textLt l.ts s

/-! ### What a page takes -/

lemma strOf_clientText (rt : Runtime) {j : Json} (hflat : flat j = true) (hprint : printable j = true) :
    rt.strOf (if Mcp.truthy j then j else .str []) = .ok (clientText j) := by
  cases j with
  | null => rfl
  | bool b => cases b <;> rfl
  | int n =>
    by_cases hn : n = 0
    · subst hn
      rfl
    · have htrue : Mcp.truthy (.int n) = true := by simpa [Mcp.truthy] using hn
      rw [if_pos htrue, Runtime.strOf, if_pos hprint, clientText, if_neg hn]
  | str s =>
    by_cases hs : s = []
    · subst hs
      rfl
    · have htrue : Mcp.truthy (.str s) = true := by simpa [Mcp.truthy] using hs
      rw [if_pos htrue, Runtime.strOf, clientText]
  | float _ => cases hflat
  | arr _ => cases hflat
  | obj _ => cases hflat

lemma Line.value_plain (l : Line rt cfg) (name : String) : flat (l.value name) = true ∧ printable (l.value name) = true := by
  rw [Line.value]
  cases hm : member l.members name with
  | none => exact ⟨rfl, rfl⟩
  | some j =>
    have hmem := Dict.get_mem hm
    have hprint := l.written.1
    rw [printable, printableMembers_eq, List.all_eq_true] at hprint
    exact ⟨l.flat_members _ hmem, hprint _ (l.perm_members.mem_iff.mp hmem)⟩

lemma judge_line (w : Wanted) (before : Option ℤ) (l : Line rt cfg) : rt.judge w before (.obj l.members) =
    .ok (if before.any (· ≤ l.seq) then .skip else if (asked w.since).any (textLt l.ts) then .stop
      else if w.Picks l then .take else .skip) := by
  have hseq : getOr (.obj l.members) "seq" (.int 0) = .ok (.int l.seq) := by
    rw [getOr, l.member_entry List.mem_cons_self]
    rfl
  have hts : getOr (.obj l.members) "ts" (.str []) = .ok (.str l.ts) := by
    rw [getOr, l.member_entry (List.mem_cons_of_mem _ List.mem_cons_self)]
    rfl
  obtain ⟨hflat, hprint⟩ := l.value_plain "client_name"
  have hname := strOf_clientText rt hflat hprint
  have hbefore : ifAsked before (fun n => getOr (.obj l.members) "seq" (.int 0) >>= rt.reaches n) =
      .ok (before.any (· ≤ l.seq)) := by
    cases before with
    | none => rfl
    | some n => rw [ifAsked, hseq]; rfl
  have hsince : ifAsked (asked w.since) (fun s => (textLt · s) <$> (getOr (.obj l.members) "ts" (.str []) >>= rt.strOf)) =
      .ok ((asked w.since).any (textLt l.ts)) := by
    cases asked w.since with
    | none => rfl
    | some s => rw [ifAsked, hts]; rfl
  have htool : ifAsked (asked w.tool) (fun t => (!isText · t) <$> getOr (.obj l.members) "tool" .null) =
      .ok (!(asked w.tool).all (isText (l.value "tool"))) := by
    cases asked w.tool with
    | none => rfl
    | some t => rfl
  have hclient : ifAsked (asked w.client) (fun c => do
      let name ← getOr (.obj l.members) "client_name" .null
      let name ← rt.strOf (if Mcp.truthy name then name else .str [])
      return !decide (rt.lower c <:+: rt.lower name)) =
      .ok (!(asked w.client).all fun c => rt.lower c <:+: rt.lower (clientText (l.value "client_name"))) := by
    cases asked w.client with
    | none => rfl
    | some c =>
      change (rt.strOf (if Mcp.truthy (l.value "client_name") then l.value "client_name" else .str []) >>= fun name =>
        pure !decide (rt.lower c <:+: rt.lower name)) = _
      rw [hname]
      rfl
  unfold Runtime.judge
  rw [hbefore, hsince, htool, hclient, Wanted.Picks]
  cases before.any (· ≤ l.seq) with
  | true => rfl
  | false =>
    cases (asked w.since).any (textLt l.ts) with
    | true => rfl
    | false => cases (asked w.tool).all (isText (l.value "tool")) with
      | false => rfl
      | true => cases (asked w.client).all fun c => rt.lower c <:+: rt.lower (clientText (l.value "client_name")) with
        | false => rfl
        | true => rfl

lemma textLt_of_le {a b s : PyStr} (hle : textLt a b = false) (h : textLt a s = true) : textLt b s = true := by
  rw [textLt, decide_eq_false_iff_not, not_lt] at hle
  rw [textLt, decide_eq_true_eq] at h ⊢
  exact lt_of_le_of_lt hle h

lemma matches_eq (w : Wanted) (l : Line rt cfg) : w.Matches l = (w.Picks l && !(asked w.since).any (textLt l.ts)) := by
  rw [Wanted.Matches]
  cases asked w.since <;> rfl

/-- From the newest on a page takes what matches, as long as there is room: where the loop stops, nothing older matches. -/
lemma fill_lines (w : Wanted) (before : Option ℤ) (limit : ℕ) {ls : List (Line rt cfg)}
    (htimes : ls.Pairwise fun a b => textLt a.ts b.ts = false) {out : List Json} (hout : out.length ≤ limit) :
    let wanted := ls.filter fun l => !before.any (· ≤ l.seq) && w.Matches l
    rt.fill w before limit (ls.map fun l => .ok (.obj l.members)) out =
      .ok (out ++ (wanted.take (limit - out.length)).map (fun l => .obj l.members), limit < out.length + wanted.length) := by
  induction ls generalizing out with
  | nil => simp [Runtime.fill, hout]
  | cons l ls ih =>
    obtain ⟨hl, hls⟩ := List.pairwise_cons.mp htimes
    have hfilter : ∀ b : Bool, (!before.any (· ≤ l.seq) && w.Matches l) = b → ((l :: ls).filter fun l =>
        !before.any (· ≤ l.seq) && w.Matches l) = if b then l :: ls.filter fun l => !before.any (· ≤ l.seq) && w.Matches l
          else ls.filter fun l => !before.any (· ≤ l.seq) && w.Matches l := by
      rintro b hb
      rw [List.filter_cons, hb]
    have hmatches := matches_eq w l
    rw [List.map_cons, Runtime.fill]
    simp only [bind, Except.bind, judge_line, pure, Except.pure]
    cases hbefore : before.any (· ≤ l.seq) with
    | true =>
      rw [hfilter false (by rw [hbefore]; rfl)]
      exact ih hls hout
    | false =>
      rw [hbefore] at hfilter
      cases hsince : (asked w.since).any (textLt l.ts) with
      | true =>
        -- what comes behind is no newer
        have hnone : ((l :: ls).filter fun l => !before.any (· ≤ l.seq) && w.Matches l) = [] := by
          refine List.filter_eq_nil_iff.mpr fun b hb => ?_
          have hold : (asked w.since).any (textLt b.ts) = true := by
            obtain ⟨s, hs, hlt⟩ := (Option.any_eq_true _ _).mp hsince
            refine (Option.any_eq_true _ _).mpr ⟨s, hs, ?_⟩
            rcases List.mem_cons.mp hb with rfl | hb
            · exact hlt
            · exact textLt_of_le (hl b hb) hlt
          rw [matches_eq, hold]
          simp
        rw [hnone]
        simp [hout]
      | false =>
        rw [hsince, Bool.not_false, Bool.and_true] at hmatches
        cases hpicks : w.Picks l with
        | false =>
          rw [hfilter false (by rw [hmatches, hpicks]; rfl)]
          exact ih hls hout
        | true =>
          rw [hfilter true (by rw [hmatches, hpicks]; rfl)]
          simp only [Bool.false_eq_true, if_false, if_true]
          by_cases hfull : (limit : ℤ) ≤ out.length
          · have heq : out.length = limit := by omega
            rw [if_pos hfull, heq]
            simp
          · have hroom : (out ++ [Json.obj l.members]).length ≤ limit := by
              rw [List.length_append, List.length_singleton]
              omega
            have hsub : limit - out.length = limit - (out ++ [Json.obj l.members]).length + 1 := by
              rw [List.length_append, List.length_singleton]
              omega
            rw [if_neg hfull, ih hls hroom, hsub, List.take_succ_cons, List.map_cons, List.append_assoc, List.length_append,
              List.length_singleton, List.length_cons]
            simp
            omega

/-! ### Pages -/

/-- `int(cursor)`. -/
def Runtime.cursorOf (rt : Runtime) (cursor : PyStr) : Option ℤ := (rt.toInt (.str cursor)).toOption

/-- What a client that sends back the cursors gets; `none` where a request raises. -/
def Runtime.fetch (rt : Runtime) (disk : Disk) (w : Wanted) (limit : ℤ) (before : Option ℤ) :
    Option (List Json × Option ℤ) :=
  match rt.query disk w before limit with
  | .error _ => none
  | .ok ⟨entries, none⟩ => some (entries, none)
  | .ok ⟨entries, some cursor⟩ => (rt.cursorOf cursor).map fun n => (entries, some n)

/-- The number of an entry. -/
def seqOf : Json → ℤ
  | .obj d =>
    match member d "seq" with
    | some (.int n) => n
    | _ => 0
  | _ => 0

lemma seqOf_line (l : Line rt cfg) : seqOf (.obj l.members) = l.seq := by
  rw [seqOf, l.member_entry List.mem_cons_self]
  rfl

lemma cursor_line (l : Line rt cfg) : ∃ cursor, subscript (.obj l.members) "seq" >>= rt.strOf = .ok cursor ∧
    rt.cursorOf cursor = some l.seq := by
  have hprint : printable (.int l.seq) = true := by
    have hplain := (l.value_plain "seq").2
    rwa [Line.value, l.member_entry List.mem_cons_self] at hplain
  refine ⟨PyStr.ofString (toString l.seq), ?_, ?_⟩
  · rw [l.subscript_seq]
    change rt.strOf (.int l.seq) = _
    rw [Runtime.strOf, if_pos hprint]
  · have hdigits : (Nat.toDigits 10 l.seq.natAbs).length ≤ 4300 := by simpa [printable, maxDigits, Nat.repr] using hprint
    have hchars : String.ofList (chars (PyStr.ofString (toString l.seq))) = toString l.seq := by
      have hmap : (toString l.seq).toList.map (fun c => Char.ofNat c.toNat) = (toString l.seq).toList :=
        (List.map_congr_left fun c _ => Char.ofNat_toNat c).trans (List.map_id _)
      rw [chars, PyStr.ofString, PyStr.ofChars, List.map_map]
      exact (congrArg String.ofList hmap).trans String.ofList_toList
    rw [Runtime.cursorOf, Runtime.toInt, if_pos (PyStr.scalars_ofString _), hchars, PyText.intText_toString hdigits]
    rfl

/-- The entries that match, the newest first. -/
def matching (w : Wanted) (segments : Filled rt cfg) : List (Line rt cfg) := (entries segments).reverse.filter w.Matches

lemma entriesDesc_files {disk : Disk} {segments : Filled rt cfg} (h : disk.daily = filesOf segments) :
    rt.entriesDesc disk = (entries segments).reverse.map fun l => .ok (.obj l.members) := by
  have hentries : entries segments = segments.flatMap Prod.snd := rfl
  rw [Runtime.entriesDesc, h, filesOf, ← List.map_reverse, List.flatMap_map, hentries, List.reverse_flatMap, List.map_flatMap]
  apply List.flatMap_congr
  intro m _
  rw [entriesOf_fileOf]
  rfl

/-- A page that is asked for behind a number. -/
lemma query_page {disk : Disk} {segments : Filled rt cfg} (h : WellFormed disk segments) (w : Wanted) {limit : ℕ}
    (hlimit : 0 < limit) (before : Option ℤ) :
    let wanted := (matching w segments).filter fun l => !before.any (· ≤ l.seq)
    rt.fetch disk w limit before = some ((wanted.take limit).map (fun l => .obj l.members),
      if limit < wanted.length then (wanted.take limit).getLast?.map Line.seq else none) := by
  intro wanted
  have hfill := fill_lines w before limit (List.pairwise_reverse.mpr h.times)
    (show ([] : List Json).length ≤ limit from Nat.zero_le _)
  have hwanted : ((entries segments).reverse.filter fun l => !before.any (· ≤ l.seq) && w.Matches l) = wanted := by
    rw [← List.filter_filter]
    rfl
  dsimp only at hfill
  rw [hwanted, List.length_nil, Nat.sub_zero, Nat.zero_add, List.nil_append] at hfill
  rw [Runtime.fetch, Runtime.query, Runtime.pageOf, entriesDesc_files h.daily, hfill]
  by_cases hmore : limit < wanted.length
  · have hne : wanted.take limit ≠ [] := by
      intro hnil
      have hlen := congrArg List.length hnil
      rw [List.length_take, List.length_nil] at hlen
      omega
    have hlast := List.getLast?_eq_some_getLast hne
    set l := (wanted.take limit).getLast hne
    obtain ⟨cursor, hcursor, hback⟩ := cursor_line l
    have hfound : ((wanted.take limit).map fun l => Json.obj l.members).getLast? = some (.obj l.members) := by
      rw [List.getLast?_map, hlast]
      rfl
    simp only [bind, Except.bind, hmore, decide_true, if_true, hfound] at hcursor ⊢
    rw [hcursor, hlast]
    simp [hback, pure, Except.pure]
  · simp [hmore, bind, Except.bind, pure, Except.pure]

lemma serves {disk : Disk} {segments : Filled rt cfg} (h : WellFormed disk segments) (w : Wanted) {limit : ℕ}
    (hlimit : 0 < limit) : Listing.ServesPages (rt.fetch disk w limit) seqOf OrderDual.toDual
      ((matching w segments).map fun l => .obj l.members) limit := by
  intro before
  have hrest : Listing.rowsAfter (OrderDual.toDual ∘ seqOf) ((matching w segments).map fun l => .obj l.members)
      (before.map OrderDual.toDual) =
        ((matching w segments).filter fun l => !before.any (· ≤ l.seq)).map fun l => .obj l.members := by
    rw [Listing.rowsAfter, List.filter_map]
    refine congrArg (List.map _) (List.filter_congr fun l _ => ?_)
    rw [Function.comp_apply, Function.comp_apply, seqOf_line]
    cases before with
    | none => rfl
    | some n => simp [← not_le]
  rw [hrest, query_page h w hlimit, List.length_map, ← List.map_take, List.getLast?_map, Option.map_map]
  have hseq : (seqOf ∘ fun l : Line rt cfg => Json.obj l.members) = Line.seq := funext seqOf_line
  rw [hseq]

/-! ### The head of a page -/

/-- What a page has taken it keeps. -/
lemma fill_extends {w : Wanted} {before : Option ℤ} {limit : ℤ} {es : List (Except Raised Json)} {out : List Json}
    {r : List Json × Bool} (h : rt.fill w before limit es out = .ok r) : out <+: r.1 := by
  induction es generalizing out with
  | nil =>
    obtain rfl := Except.ok.inj h
    exact List.prefix_rfl
  | cons e es ih =>
    obtain ⟨j, -, h⟩ := Checks.bind_ok h
    obtain ⟨v, -, h⟩ := Checks.bind_ok h
    cases v with
    | skip => exact ih h
    | stop =>
      obtain rfl := Except.ok.inj h
      exact List.prefix_rfl
    | take =>
      dsimp only at h
      split_ifs at h
      · obtain rfl := Except.ok.inj h
        exact List.prefix_rfl
      · exact (List.prefix_append out [j]).trans (ih h)

def everything : Wanted := ⟨none, none, none⟩

/-- A first page of everything begins with what is read first. -/
lemma pageOf_first {limit : ℤ} (hlimit : 1 ≤ limit) {j : Json} {es : List (Except Raised Json)} {page : Page}
    (h : rt.pageOf everything none limit (.ok j :: es) = .ok page) : page.entries.head? = some j := by
  obtain ⟨r, hfill, h⟩ := Checks.bind_ok h
  have hentries : page.entries = r.1 := by
    dsimp only at h
    split at h
    · rw [← Except.ok.inj h]
    · obtain ⟨cursor, -, h⟩ := Checks.bind_ok h
      rw [← Except.ok.inj h]
  have hone : rt.fill everything none limit es [j] = .ok r := by
    have hnone : ¬ limit ≤ ((0 : ℕ) : ℤ) := by omega
    rw [Runtime.fill] at hfill
    change (if limit ≤ ((0 : ℕ) : ℤ) then _ else rt.fill everything none limit es [j]) = Except.ok r at hfill
    rwa [if_neg hnone] at hfill
  obtain ⟨rest, hrest⟩ := fill_extends hone
  rw [hentries, ← hrest]
  rfl

/-- The newest file is held open. -/
lemma snapshotDesc_first (setting : Option ℤ) {disk : Disk} (later : Disk) {init : Filled rt cfg} {name : String} {ls : List (Line rt cfg)}
    {l : Line rt cfg} (h : disk.daily = filesOf (init ++ [(name, ls ++ [l])])) :
    ∃ es, rt.snapshotDesc (snapshot (snapshotPinnedFiles setting) disk) later = .ok (.obj l.members) :: es := by
  have hpos : 1 ≤ snapshotPinnedFiles setting := by
    rw [snapshotPinnedFiles]
    omega
  have hsnapshot : ∃ older, snapshot (snapshotPinnedFiles setting) disk =
      older ++ [⟨name, (fileOf (ls ++ [l])).length, some (fileOf (ls ++ [l]))⟩] := by
    rw [snapshot, h, filesOf_append, List.zipIdx_append, List.map_append]
    refine ⟨_, congrArg _ ?_⟩
    simp [filesOf, Nat.pos_iff_ne_zero.mp hpos]
  obtain ⟨older, hsnapshot⟩ := hsnapshot
  rw [Runtime.snapshotDesc, hsnapshot, List.reverse_append, List.reverse_singleton, List.singleton_append, List.flatMap_cons]
  dsimp only [Option.or]
  rw [entriesOf_fileOf, List.reverse_append, List.reverse_singleton, List.singleton_append, List.map_cons, List.cons_append]
  exact ⟨_, rfl⟩

lemma chainIn_line (l : Line rt cfg) : chainIn l.members = some l.next := by
  rw [chainIn, l.member_entry List.mem_cons_self, l.member_entry (List.mem_append_right _ (List.mem_singleton_self _))]
  rfl

lemma head_first {pinByHandle : Bool} {setting : Option ℤ} {disk later : Disk} {segments : Filled rt cfg}
    (h : WellFormed disk segments) {limit : ℤ} (hlimit : 1 ≤ limit) {page : Page} {head : Head}
    (hread : rt.queryWithHead pinByHandle setting disk later everything none limit = .ok (page, head)) :
    (segments = [] ∧ page.entries = []) ∨ ∃ d, page.entries.head? = some (.obj d) ∧ chainIn d = some head.chain := by
  obtain ⟨head', hhead, hread⟩ := Checks.bind_ok hread
  obtain ⟨page', hpage, heq⟩ := Checks.bind_ok hread
  obtain ⟨rfl, rfl⟩ := Prod.mk.inj (Except.ok.inj heq)
  by_cases hnil : segments = []
  · have hdaily : disk.daily = [] := by rw [h.daily, hnil]; rfl
    refine .inl ⟨hnil, ?_⟩
    simp [Runtime.snapshotDesc, snapshot, Runtime.entriesDesc, hdaily, Runtime.pageOf, Runtime.fill, bind, Except.bind, pure,
      Except.pure] at hpage
    rw [← hpage]
  · obtain ⟨init, name, ls, l, rfl⟩ := Filled.cases hnil h.filled
    refine .inr ⟨l.members, ?_, ?_⟩
    · cases pinByHandle with
      | true =>
        obtain ⟨es, hes⟩ := snapshotDesc_first setting later h.daily
        simp only [if_true, hes] at hpage
        exact pageOf_first hlimit hpage
      | false =>
        have hentries : entries (init ++ [(name, ls ++ [l])]) = (entries init ++ ls) ++ [l] := by simp [entries]
        simp only [Bool.false_eq_true, if_false] at hpage
        rw [entriesDesc_files h.daily, hentries, List.reverse_append, List.reverse_singleton, List.singleton_append,
          List.map_cons] at hpage
        exact pageOf_first hlimit hpage
    · rw [chainIn_line]
      rw [Runtime.head, h.daily, filesOf_append, List.reverse_append] at hhead
      change rt.headIn disk.anchor ((name, fileOf (ls ++ [l])) :: (filesOf init).reverse) = .ok head' at hhead
      rw [Runtime.headIn] at hhead
      rcases lastLine_cases ls l with hlast | ⟨e, he⟩
      · rw [hlast] at hhead
        obtain ⟨head'', hline, hchain⟩ := entryHead_line name l
        obtain rfl := Except.ok.inj (hline.symm.trans hhead)
        rw [hchain]
      · rw [he] at hhead
        cases hhead

/-- The pages of a well-formed log hold every entry that matches, the newest first, and come to an end; a first page of everything
begins with the entry that its head names, whatever the directory holds by the time it is read. -/
theorem pages_of_wellFormed {disk : Disk} {segments : Filled rt cfg} (h : WellFormed disk segments) {limit : ℕ}
    (hlimit : 1 ≤ limit) :
    (∀ (w : Wanted) (fuel : ℕ), (matching w segments).length < fuel → Listing.collect (rt.fetch disk w limit) fuel none =
        some ((matching w segments).map fun l => .obj l.members)) ∧
      (∀ w : Wanted, (matching w segments).Pairwise fun a b => b.seq < a.seq) ∧
      ∀ (pinByHandle : Bool) (setting : Option ℤ) (later : Disk) (page : Page) (head : Head),
        rt.queryWithHead pinByHandle setting disk later everything none limit = .ok (page, head) →
          (segments = [] ∧ page.entries = []) ∨ ∃ d, page.entries.head? = some (.obj d) ∧ chainIn d = some head.chain := by
  have horder : ∀ w : Wanted, (matching w segments).Pairwise fun a b => b.seq < a.seq := fun w =>
    (List.pairwise_reverse.mpr h.numbers).sublist List.filter_sublist
  refine ⟨fun w fuel hfuel => ?_, horder, fun pinByHandle setting later page head => head_first h (by omega)⟩
  have hall : Listing.rowsAfter (OrderDual.toDual ∘ seqOf) ((matching w segments).map fun l => .obj l.members)
      ((none : Option ℤ).map OrderDual.toDual) = (matching w segments).map fun l => .obj l.members := by
    simp [Listing.rowsAfter]
  rw [Listing.collect_eq (serves h w hlimit) hlimit ?_ fuel none (by rwa [hall, List.length_map]), hall]
  refine List.pairwise_map.mpr ((horder w).imp fun hlt => ?_)
  rw [seqOf_line, seqOf_line]
  exact hlt

/-- The one page of a log with one entry. -/
theorem pages_of_first : ∃ log entry d,
    idleRuntime.append idleConfig .fresh (makeFields idleCall) (dayAt 0) = .ok (log, entry) ∧ chainIn d = chainIn entry ∧
      Listing.collect (idleRuntime.fetch log.disk everything (1 : ℕ)) 2 none = some [.obj d] := by
  have hnow := reading_dayAt 0 (by decide)
  obtain ⟨log, l, happend, hlog⟩ := steady_fresh.append (by decide) le_rfl hnow (by
    rw [steady_fresh.sane.holds.retains_iff hnow]
    simp [Segments.all])
  have hall : (Segments.add ⟨Chain.genesis, [], []⟩ (fileName idleConfig (dayAt 0)) l).all =
      [(fileName idleConfig (dayAt 0), [l])] := rfl
  have hlogged : WellFormed log.disk [(fileName idleConfig (dayAt 0), [l])] := by
    refine ⟨hall ▸ hlog.sane.holds.daily, ?_, ?_, ?_⟩
    · simp
    · exact List.pairwise_singleton _ _
    · exact List.pairwise_singleton _ _
  refine ⟨log, l.entry, l.members, happend, (chainIn_line l).trans (chainIn_entry l).symm, ?_⟩
  exact (pages_of_wellFormed hlogged le_rfl).1 everything 2 (Nat.lt_succ_self 1)

end ContinuityLedger.CallLog

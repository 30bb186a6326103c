import Neve.ConfigPrintProofs
import Neve.UrlTextProofs

/-! # Upstream URLs — what is appended, and to which part

    A chain's URLs are put together from the upstream's base, the chain's path on that
    host and a token parameter, each at the end of the text so far.  A path belongs
    behind the base's path and a parameter behind its query, so the order is right as
    long as no path follows a query (`upstream_urls_in_place_iff`). -/

namespace NeveConfig

open TomlTree StrText
open NeveRecord (Chain)

/-! ## What is asked for on an upstream neve -/

/-- `/health` at the end of a URL. -/
def healthUrl (base : String) : String := trimEndMatches '/' base ++ "/health"

/-- What a fresh mirror asks for the floor. -/
def fetchUpstreamMinHeightUrl (upstream : Upstream) : String := healthUrl upstream.base

/-- What a chain's bootstrap asks for the contiguous tip. -/
def fetchUpstreamContiguousUrl (cfg : ChainCfg) : String := healthUrl cfg.rpcUrl

/-! ## Every part in its place -/

/-- A chain's paths on an upstream: a neve has none, and the P-chain no WebSocket. -/
def chainPaths (kind : UpstreamKind) (chain : Chain) : String × Option String :=
  match kind with
  | .Avalanchego => (rpcPath chain, wsPath chain)
  | .Neve => ("", some "")

/-- What a chain's RPC URL is made of: the URL that is written, or the base and a path. -/
def rpcSource (upstream : Upstream) (chain : Chain) (explicit : Option String) :
    String × String :=
  match explicit with
  | some url => (url, "")
  | none => (upstream.base, (chainPaths upstream.kind chain).1)

def wsSource (upstream : Upstream) (chain : Chain) (explicit : Option String) :
    Option (String × String) :=
  match explicit with
  | some url => some (url, "")
  | none => (chainPaths upstream.kind chain).2.map fun path => (upstream.base, path)

/-- The token parameter. -/
def Upstream.added (upstream : Upstream) (token : Token) : List Char :=
  (upstream.tokenParam ++ "=" ++ token.expose).toList

/-- The path is the source's and the chain's, the query the source's and at most one
    token parameter. -/
structure KeepsParts (upstream : Upstream) (source : String × String) (url : String) : Prop where
  path : UrlText.path url.toList = UrlText.path source.1.toList ++ source.2.toList
  query : UrlText.params (UrlText.query url.toList)
        = UrlText.params (UrlText.query source.1.toList) ∨
      ∃ token, upstream.token = some token ∧
        UrlText.params (UrlText.query url.toList)
          = UrlText.params (UrlText.query source.1.toList) ++ [upstream.added token]

/-- A URL whose path ends in `/health`, behind all that is the base's path; no query ends
    in it. -/
structure HealthInPath (base url : String) : Prop where
  path : UrlText.path url.toList
    = UrlText.path (trimEndMatches '/' base).toList ++ "/health".toList
  query : ∀ q, UrlText.query url.toList = some q → ¬ "/health".toList <:+ q

/-- **Composed URLs keep path and query in place.** -/
structure UrlsInPlace (upstream : Upstream) (chain : Chain) (rpcUrl wsUrl : Option String)
    (cfg : ChainCfg) : Prop where
  rpc : KeepsParts upstream (rpcSource upstream chain rpcUrl) cfg.rpcUrl
  ws : ∀ source, wsSource upstream chain wsUrl = some source →
    KeepsParts upstream source cfg.wsUrl
  health : upstream.kind = .Neve →
    HealthInPath upstream.base (fetchUpstreamMinHeightUrl upstream) ∧
      HealthInPath cfg.rpcUrl (fetchUpstreamContiguousUrl cfg)
  twice : ∀ url param token, '=' ∉ param.toList → '&' ∉ param.toList →
    withToken (withToken url param token) param token = withToken url param token

/-! ## When every part is -/

/-- Whether the query of a URL has a parameter of that name. -/
def carriesParam (param url : String) : Bool :=
  (UrlText.query url.toList).any fun q => q ≠ [] ∧ hasParam param (String.ofList q)

/-- A token that goes into the query of a URL is one parameter there, or nothing. -/
def TokenFits (upstream : Upstream) (url : String) : Prop :=
  ∀ token, upstream.token = some token → url ≠ "" → UrlText.fragment url.toList = none →
    carriesParam upstream.tokenParam url = false →
    ('&' ∉ upstream.added token ∧ '#' ∉ upstream.added token) ∨
      UrlText.params (some (UrlText.cut '#' (upstream.added token)).1) = []

/-- A path follows neither query nor fragment, and the token is one parameter. -/
structure Fits (upstream : Upstream) (source : String × String) : Prop where
  path : source.2 = "" ∨ UrlText.Bare source.1.toList
  token : TokenFits upstream source.1

structure UrlsFit (upstream : Upstream) (chain : Chain) (rpcUrl wsUrl : Option String) :
    Prop where
  rpc : Fits upstream (rpcSource upstream chain rpcUrl)
  ws : ∀ source, wsSource upstream chain wsUrl = some source → Fits upstream source
  /-- `/health` is put behind the base, and behind the RPC URL with its token. -/
  health : upstream.kind = .Neve → UrlText.Bare upstream.base.toList ∧
    UrlText.Bare (rpcSource upstream chain rpcUrl).1.toList ∧
      (upstream.token = none ∨ (rpcSource upstream chain rpcUrl).1 = "")

/-! ## The token parameter -/

section Token

variable {url param : String} {token : Token}

/-- A token is put at the end, if it is put at all. -/
theorem withToken_append (url param : String) (token : Token) :
    ∃ more, withToken url param token = url ++ more := by
  rcases withToken_cases url param token with
    ⟨-, h⟩ | ⟨-, -, h⟩ | ⟨_, _, -, ⟨-, h⟩ | ⟨-, -, h⟩ | ⟨-, -, h⟩⟩
  · exact ⟨"", h.trans String.append_empty.symm⟩
  · exact ⟨_, h⟩
  · exact ⟨_, h⟩
  · exact ⟨"", h.trans String.append_empty.symm⟩
  · exact ⟨_, h⟩

/-- What a token does to the parts of a URL: nothing to the path, and to the query what
    is read of the parameter unless it stays out of the query. -/
structure TokenParts (url param : String) (token : Token) : Prop where
  path : UrlText.path (withToken url param token).toList = UrlText.path url.toList
  kept : url = "" ∨ UrlText.fragment url.toList ≠ none ∨ carriesParam param url = true →
    UrlText.params (UrlText.query (withToken url param token).toList)
      = UrlText.params (UrlText.query url.toList)
  added : url ≠ "" → UrlText.fragment url.toList = none → carriesParam param url = false →
    UrlText.params (UrlText.query (withToken url param token).toList)
      = UrlText.params (UrlText.query url.toList)
        ++ UrlText.params
            (some (UrlText.cut '#' (param ++ "=" ++ token.expose).toList).1)

theorem carriesParam_bare (h : UrlText.Bare url.toList) : carriesParam param url = false := by
  rw [carriesParam, UrlText.query_bare h]
  rfl

theorem splitOnce_queried {a q : List Char} (ha : UrlText.Bare a)
    (hurl : url.toList = a ++ '?' :: q) :
    splitOnce '?' url = some (String.ofList a, String.ofList q) := by
  refine splitOnce_iff.mpr ⟨?_, ?_⟩
  · rw [String.toList_ofList, String.toList_ofList, hurl]
  · rw [String.toList_ofList]
    exact ha.1

theorem carriesParam_queried {a q : List Char} (ha : UrlText.Bare a) (hq : '#' ∉ q)
    (hurl : url.toList = a ++ '?' :: q) (param : String) :
    carriesParam param url = true ↔ q ≠ [] ∧ hasParam param (String.ofList q) = true := by
  rw [carriesParam, hurl, UrlText.query_queried ha, UrlText.cut_of_not_mem hq, Option.any_some]
  exact decide_eq_true_iff

/-- The parts of a URL with a query, when text is put at its end. -/
theorem queried_append {a q : List Char} (ha : UrlText.Bare a)
    (hurl : url.toList = a ++ '?' :: q) (more : String) :
    UrlText.path (url ++ more).toList = UrlText.path url.toList ∧
      UrlText.query (url ++ more).toList = some (UrlText.cut '#' (q ++ more.toList)).1 := by
  rw [String.toList_append, hurl, List.append_assoc, List.cons_append,
    UrlText.path_queried ha, UrlText.path_queried ha, UrlText.query_queried ha]
  exact ⟨rfl, rfl⟩

/-- A URL with a query: the token goes behind a bare `?`, or behind the other parameters
    unless it is one of them. -/
theorem withToken_parts_queried {a q : List Char} (ha : UrlText.Bare a) (hq : '#' ∉ q)
    (hlist : url.toList = a ++ '?' :: q) (param : String) (token : Token) :
    TokenParts url param token := by
  have hsplit := splitOnce_queried ha hlist
  have hquery : UrlText.query url.toList = some q := by
    rw [hlist, UrlText.query_queried ha, UrlText.cut_of_not_mem hq]
  have hfragment : UrlText.fragment url.toList = none := by
    rw [hlist, UrlText.fragment_queried ha, UrlText.fragment, UrlText.cut_of_not_mem hq]
  have hcarries := carriesParam_queried ha hq hlist param
  have hempty : String.ofList q = "" ↔ q = [] := by
    rw [← String.toList_inj, String.toList_ofList]
    rfl
  have hout : url = "" ∨ UrlText.fragment url.toList ≠ none ∨
      carriesParam param url = true → carriesParam param url = true := by
    rintro (rfl | hsome | hyes)
    · cases hsplit
    · exact absurd hfragment hsome
    · exact hyes
  rcases withToken_cases url param token with
    ⟨rfl, -⟩ | ⟨-, hnone, -⟩ | ⟨before, query, hsome, hcase⟩
  · cases hsplit
  · rw [hsplit] at hnone
    cases hnone
  obtain ⟨rfl, rfl⟩ := Prod.mk.inj (Option.some.inj (hsplit.symm.trans hsome))
  -- an empty query, one that has the parameter, or one that is appended to
  rcases hcase with ⟨hnil, hvalue⟩ | ⟨hne, hpresent, hvalue⟩ | ⟨hne, hpresent, hvalue⟩
  · obtain ⟨hpath, happended⟩ := queried_append ha hlist (param ++ "=" ++ token.expose)
    rw [← hvalue] at hpath happended
    refine ⟨hpath, ?_, ?_⟩
    · intro h
      exact absurd (hempty.mp hnil) (hcarries.mp (hout h)).1
    · intro _ _ _
      rw [happended, hquery, hempty.mp hnil, UrlText.params_empty, List.nil_append,
        List.nil_append]
  · refine ⟨?_, ?_, ?_⟩
    · rw [hvalue]
    · intro _
      rw [hvalue]
    · intro _ _ hno
      rw [hcarries.mpr ⟨mt hempty.mpr hne, hpresent⟩] at hno
      cases hno
  · obtain ⟨hpath, happended⟩ :=
      queried_append ha hlist ("&" ++ (param ++ "=" ++ token.expose))
    have hstart : '#' ∉ q ++ ['&'] := by
      rw [List.mem_append, not_or]
      exact ⟨hq, by decide⟩
    -- the first `#` can only be the token's, for the query has none
    have hcut : UrlText.cut '#' (q ++ ("&" ++ (param ++ "=" ++ token.expose)).toList)
        = (q ++ '&' :: (UrlText.cut '#' (param ++ "=" ++ token.expose).toList).1,
          (UrlText.cut '#' (param ++ "=" ++ token.expose).toList).2) := by
      have hleft := UrlText.cut_append_left hstart (param ++ "=" ++ token.expose).toList
      rw [List.append_assoc, List.append_assoc] at hleft
      rw [String.toList_append]
      exact hleft
    rw [← hvalue] at hpath happended
    refine ⟨hpath, ?_, ?_⟩
    · intro h
      rw [(hcarries.mp (hout h)).2] at hpresent
      cases hpresent
    · intro _ _ _
      rw [happended, hcut, hquery, UrlText.params_append]

/-- **The spec of `withToken`, part by part.** -/
theorem withToken_parts (url param : String) (token : Token) : TokenParts url param token := by
  have hshape := UrlText.shape url.toList
  generalize hlist : url.toList = cs at hshape
  -- no query and no fragment, a query, or a fragment first
  cases hshape with
  | bare hbare =>
      rw [← hlist] at hbare
      have hsplit : splitOnce '?' url = none := splitOnce_eq_none.mpr hbare.1
      rcases withToken_cases url param token with
        ⟨hurl, hvalue⟩ | ⟨hurl, -, hvalue⟩ | ⟨_, _, hsome, -⟩
      · refine ⟨?_, ?_, ?_⟩
        · rw [hvalue]
        · intro _
          rw [hvalue]
        · intro hne
          exact absurd hurl hne
      · have hvalue' : (withToken url param token).toList
            = url.toList ++ '?' :: (param ++ "=" ++ token.expose).toList := by
          rw [hvalue, String.toList_append, String.toList_append]
          rfl
        refine ⟨?_, ?_, ?_⟩
        · rw [hvalue', UrlText.path_queried hbare, UrlText.path_bare hbare]
        · rintro (hempty | hfragment | hcarries)
          · exact absurd hempty hurl
          · exact absurd (UrlText.fragment_bare hbare) hfragment
          · rw [carriesParam_bare hbare] at hcarries
            cases hcarries
        · intro _ _ _
          rw [hvalue', UrlText.query_queried hbare, UrlText.query_bare hbare,
            UrlText.params_none, List.nil_append]
      · rw [hsplit] at hsome
        cases hsome
  | @queried a q ha hq =>
      exact withToken_parts_queried ha hq hlist param token
  | @fragmented a f ha =>
      -- whatever is appended lands behind the `#`
      obtain ⟨more, hmore⟩ := withToken_append url param token
      have hvalue : (withToken url param token).toList = a ++ '#' :: (f ++ more.toList) := by
        rw [hmore, String.toList_append, hlist, List.append_assoc, List.cons_append]
      have hquery : UrlText.query (withToken url param token).toList
          = UrlText.query url.toList := by
        rw [hvalue, hlist, UrlText.query_fragmented ha, UrlText.query_fragmented ha]
      refine ⟨?_, ?_, ?_⟩
      · rw [hvalue, hlist, UrlText.path_fragmented ha, UrlText.path_fragmented ha]
      · intro _
        rw [hquery]
      · intro _ hfragment
        rw [hlist, UrlText.fragment_fragmented ha] at hfragment
        cases hfragment

/-- A parameter of a query is found by its name. -/
theorem any_param (hname : '=' ∉ param.toList) (hfree : '&' ∉ param.toList) {query : String}
    (rest : List Char)
    (hquery : (param.toList ++ '=' :: rest).splitOn '&' ⊆ query.toList.splitOn '&') :
    hasParam param query = true := by
  have hfirst : ∃ more, param.toList ++ '=' :: more ∈
      (param.toList ++ '=' :: rest).splitOn '&' := by
    have hstart : '&' ∉ param.toList ++ ['='] := by
      rw [List.mem_append, not_or]
      exact ⟨hfree, by decide⟩
    by_cases hrest : '&' ∈ rest
    · obtain ⟨before, after, rfl, hb⟩ := List.eq_append_cons_of_mem hrest
      have hfree' : '&' ∉ param.toList ++ '=' :: before := by
        rw [← List.singleton_append, ← List.append_assoc, List.mem_append, not_or]
        exact ⟨hstart, hb⟩
      refine ⟨before, ?_⟩
      rw [← List.cons_append, ← List.append_assoc,
        List.splitOn_append_cons_self_of_not_mem hfree']
      exact List.mem_cons_self ..
    · have hfree' : '&' ∉ param.toList ++ '=' :: rest := by
        rw [← List.singleton_append, ← List.append_assoc, List.mem_append, not_or]
        exact ⟨hstart, hrest⟩
      refine ⟨rest, ?_⟩
      rw [List.splitOn_eq_singleton hfree']
      exact List.mem_singleton.mpr rfl
  obtain ⟨more, hmore⟩ := hfirst
  rw [hasParam, List.any_eq_true]
  refine ⟨String.ofList (param.toList ++ '=' :: more), List.mem_map_of_mem (hquery hmore), ?_⟩
  rw [decide_eq_true_eq, split, String.toList_ofList,
    List.splitOn_append_cons_self_of_not_mem hname, List.map_cons, List.head?_cons,
    String.ofList_toList]

/-- A parameter that is there is not put there again. -/
theorem withToken_of_present {before query : String}
    (hsplit : splitOnce '?' url = some (before, query)) (hquery : query ≠ "")
    (hpresent : hasParam param query = true) : withToken url param token = url := by
  rcases withToken_cases url param token with
    ⟨-, h⟩ | ⟨-, hnone, -⟩ | ⟨_, _, hsome, hcase⟩
  · exact h
  · rw [hsplit] at hnone
    cases hnone
  · obtain ⟨rfl, rfl⟩ := Prod.mk.inj (Option.some.inj (hsplit.symm.trans hsome))
    rcases hcase with ⟨hnil, -⟩ | ⟨-, -, h⟩ | ⟨-, habsent, -⟩
    · exact absurd hnil hquery
    · exact h
    · rw [hpresent] at habsent
      cases habsent

/-- **Once is enough**, for a name without `=` and `&`. -/
theorem withToken_twice (url : String) (token : Token) (hname : '=' ∉ param.toList)
    (hfree : '&' ∉ param.toList) :
    withToken (withToken url param token) param token = withToken url param token := by
  have hadded : (param ++ "=" ++ token.expose).toList
      = param.toList ++ '=' :: token.expose.toList := by
    rw [String.toList_append, String.toList_append, List.append_assoc]
    rfl
  have hne : ∀ front : String, front ++ (param ++ "=" ++ token.expose) ≠ "" := by
    intro front hnil
    have hlength := congrArg (fun s => s.toList) hnil
    rw [String.toList_append, hadded] at hlength
    exact absurd hlength (by simp)
  rcases withToken_cases url param token with
    ⟨-, hvalue⟩ | ⟨-, hsplit, hvalue⟩ | ⟨before, query, hsplit, hcase⟩
  · rw [hvalue, hvalue]
  · have hagain : splitOnce '?' (url ++ ("?" ++ (param ++ "=" ++ token.expose)))
        = some (url, param ++ "=" ++ token.expose) := by
      refine splitOnce_iff.mpr ⟨?_, splitOnce_eq_none.mp hsplit⟩
      rw [String.toList_append, String.toList_append]
      rfl
    rw [hvalue]
    refine withToken_of_present hagain (hne "") (any_param hname hfree token.expose.toList ?_)
    rw [hadded]
    exact List.Subset.refl _
  rcases hcase with ⟨hquery, hvalue⟩ | ⟨-, -, hvalue⟩ | ⟨-, -, hvalue⟩
  · have hagain := splitOnce_append hsplit (param ++ "=" ++ token.expose)
    rw [hvalue]
    refine withToken_of_present hagain (hne query)
      (any_param hname hfree token.expose.toList ?_)
    rw [hquery, String.toList_append, hadded]
    exact List.Subset.refl _
  · rw [hvalue, hvalue]
  · have hagain := splitOnce_append hsplit ("&" ++ (param ++ "=" ++ token.expose))
    rw [hvalue]
    refine withToken_of_present hagain ?_ (any_param hname hfree token.expose.toList ?_)
    · rw [← String.append_assoc]
      exact hne (query ++ "&")
    · have hand : "&".toList = ['&'] := rfl
      rw [String.toList_append, String.toList_append, hadded, hand, List.singleton_append,
        List.splitOn_append_cons_self]
      exact List.subset_append_right _ _

end Token

/-! ## One URL -/

/-- Two texts of the same path, query and fragment. -/
structure SameParts (url url' : String) : Prop where
  path : UrlText.path url'.toList = UrlText.path url.toList
  query : UrlText.query url'.toList = UrlText.query url.toList
  fragment : UrlText.fragment url'.toList = UrlText.fragment url.toList
  empty : url' = "" ↔ url = ""

theorem bare_iff (cs : List Char) :
    UrlText.Bare cs ↔ UrlText.query cs = none ∧ UrlText.fragment cs = none := by
  constructor
  · intro h
    exact ⟨UrlText.query_bare h, UrlText.fragment_bare h⟩
  · rintro ⟨hquery, hfragment⟩
    cases UrlText.shape cs with
    | bare h => exact h
    | @queried a q ha hq =>
        rw [UrlText.query_queried ha] at hquery
        cases hquery
    | @fragmented a f ha =>
        rw [UrlText.fragment_fragmented ha] at hfragment
        cases hfragment

theorem SameParts.bare {url url' : String} (h : SameParts url url') :
    UrlText.Bare url'.toList ↔ UrlText.Bare url.toList := by
  rw [bare_iff, bare_iff, h.query, h.fragment]

theorem tokenFits_congr {up : Upstream} {url url' : String}
    (hquery : UrlText.query url'.toList = UrlText.query url.toList)
    (hfragment : UrlText.fragment url'.toList = UrlText.fragment url.toList)
    (hempty : url' = "" ↔ url = "") : TokenFits up url' ↔ TokenFits up url := by
  rw [TokenFits, TokenFits, hfragment, ne_eq, ne_eq, hempty, carriesParam, carriesParam, hquery]

/-- A token parameter leaves the path, and adds what it should exactly when it fits. -/
theorem tokened_parts (up : Upstream) (url : String) :
    UrlText.path (up.tokened url).toList = UrlText.path url.toList ∧
      ((UrlText.params (UrlText.query (up.tokened url).toList)
          = UrlText.params (UrlText.query url.toList) ∨
        ∃ token, up.token = some token ∧
          UrlText.params (UrlText.query (up.tokened url).toList)
            = UrlText.params (UrlText.query url.toList) ++ [up.added token]) ↔
        TokenFits up url) := by
  cases htoken : up.token with
  | none =>
      have hvalue : up.tokened url = url := by rw [Upstream.tokened, htoken]
      rw [hvalue]
      refine ⟨rfl, ?_, ?_⟩
      · intro _ token hsome
        rw [htoken] at hsome
        cases hsome
      · intro _
        exact Or.inl rfl
  | some token =>
      have hvalue : up.tokened url = withToken url up.tokenParam token := by
        rw [Upstream.tokened, htoken]
      have hparts := withToken_parts url up.tokenParam token
      rw [hvalue]
      refine ⟨hparts.path, ?_, ?_⟩
      · rintro hquery token' htoken' hurl hfragment hcarries
        obtain rfl : token = token' := Option.some.inj (htoken.symm.trans htoken')
        have hadded := hparts.added hurl hfragment hcarries
        rw [hadded] at hquery
        -- nothing added, or the parameter that was meant
        rcases hquery with hnone | ⟨_, ⟨⟩, hone⟩
        · exact Or.inr (List.append_right_eq_self.mp hnone)
        · refine Or.inl ((UrlText.params_cut_eq ?_).mp (List.append_cancel_left hone))
          simp [Upstream.added]
      · intro hfits
        -- the three kinds of URL that keep their query
        by_cases hkept : url = "" ∨ UrlText.fragment url.toList ≠ none ∨
            carriesParam up.tokenParam url = true
        · exact Or.inl (hparts.kept hkept)
        · rw [not_or, not_or, not_not, Bool.not_eq_true] at hkept
          obtain ⟨hurl, hfragment, hcarries⟩ := hkept
          have hadded := hparts.added hurl hfragment hcarries
          rcases hfits token htoken hurl hfragment hcarries with hplain | hblank
          · have hne : up.added token ≠ [] := by simp [Upstream.added]
            refine Or.inr ⟨token, rfl, ?_⟩
            rw [hadded]
            exact congrArg _ ((UrlText.params_cut_eq hne).mpr hplain)
          · refine Or.inl ?_
            rw [hadded]
            have hnil : UrlText.params (some (UrlText.cut '#'
                (up.tokenParam ++ "=" ++ token.expose).toList).1) = [] := hblank
            rw [hnil, List.append_nil]

/-- A chain's path: none, or one that starts with a single slash. -/
def ChainPath (path : String) : Prop :=
  path = "" ∨ ∃ c rest, path.toList = '/' :: c :: rest ∧ c ≠ '/' ∧
    UrlText.Bare path.toList

/-- **One URL**: a source, spelled with another scheme perhaps, the chain's path and the
    token. -/
theorem keepsParts_iff {up : Upstream} {source url path : String} (hsame : SameParts source url)
    (hpath : ChainPath path) (hend : path ≠ "" → url.toList.getLast? ≠ some '/')
    (hne : path ≠ "" → source ≠ "") :
    KeepsParts up (source, path) (up.tokened (url ++ path)) ↔ Fits up (source, path) := by
  obtain ⟨htokened, hquery⟩ := tokened_parts up (url ++ path)
  rcases hpath with rfl | ⟨c, rest, hlist, hc, hbare⟩
  · rw [String.append_empty] at htokened hquery ⊢
    have hfits : TokenFits up url ↔ TokenFits up source :=
      tokenFits_congr hsame.query hsame.fragment hsame.empty
    rw [hsame.query, hfits] at hquery
    constructor
    · intro h
      exact ⟨Or.inl rfl, hquery.mp h.query⟩
    · intro h
      refine ⟨?_, hquery.mpr h.token⟩
      rw [htokened, hsame.path]
      exact (List.append_nil _).symm
  have hpath : path ≠ "" := by
    rintro rfl
    cases hlist
  -- a path that is not empty has to show
  have hlen : ∀ cs : List Char, cs ≠ cs ++ path.toList := by
    intro cs heq
    rw [List.self_eq_append_right, hlist] at heq
    cases heq
  rw [String.toList_append] at htokened hquery
  -- behind a query or a fragment the path is not one
  by_cases hsource : UrlText.Bare source.toList
  · have hurl : UrlText.Bare url.toList := hsame.bare.mpr hsource
    have hboth : UrlText.Bare (url.toList ++ path.toList) := hurl.append hbare
    have hfits : TokenFits up (url ++ path) ↔ TokenFits up source := by
      refine tokenFits_congr ?_ ?_ ?_
      · rw [String.toList_append, UrlText.query_bare hboth, UrlText.query_bare hsource]
      · rw [String.toList_append, UrlText.fragment_bare hboth, UrlText.fragment_bare hsource]
      · constructor
        · intro hnil
          have hcs := congrArg String.toList hnil
          rw [String.toList_append, hlist] at hcs
          exact absurd hcs (by simp)
        · intro hnil
          exact absurd hnil (hne hpath)
    rw [UrlText.query_bare hboth, ← UrlText.query_bare hsource, hfits] at hquery
    constructor
    · intro h
      exact ⟨Or.inr hsource, hquery.mp h.query⟩
    · intro h
      refine ⟨?_, hquery.mpr h.token⟩
      have happend := UrlText.path_append hurl (hlist ▸ hbare) (hend hpath) hc
      rw [← hlist] at happend
      rw [htokened, happend, hsame.path]
  · constructor
    · intro h
      have hsource' : ¬ UrlText.Bare url.toList := mt hsame.bare.mp hsource
      have hkept := h.path
      rw [htokened, UrlText.path_append_of_not_bare hsource', hsame.path] at hkept
      exact absurd hkept (hlen _)
    · intro h
      exact absurd h.path (not_or.mpr ⟨hpath, hsource⟩)

/-! ## `/health` -/

theorem mem_trimEndMatches {c d : Char} (hd : d ≠ c) (s : String) :
    d ∈ (trimEndMatches c s).toList ↔ d ∈ s.toList := by
  have hsplit : s.toList.rdropWhile (fun x => decide (x = c))
      ++ s.toList.rtakeWhile (fun x => decide (x = c)) = s.toList :=
    List.rdropWhile_append_rtakeWhile
  rw [trimEndMatches, String.toList_ofList]
  constructor
  · intro h
    exact (List.rdropWhile_prefix _ _).subset h
  · intro h
    rw [← hsplit, List.mem_append] at h
    rcases h with h | h
    · exact h
    · have hsame := List.mem_rtakeWhile_imp h
      exact absurd (of_decide_eq_true hsame) hd

theorem bare_trimEnd (base : String) :
    UrlText.Bare (trimEndMatches '/' base).toList ↔ UrlText.Bare base.toList := by
  rw [UrlText.Bare, UrlText.Bare, mem_trimEndMatches (by decide), mem_trimEndMatches (by decide)]

theorem trimEnd_getLast (c : Char) (s : String) :
    (trimEndMatches c s).toList.getLast? ≠ some c := by
  rw [trimEndMatches, String.toList_ofList]
  intro hlast
  obtain ⟨start, hstart⟩ := List.getLast?_eq_some_iff.mp hlast
  have hne : s.toList.rdropWhile (fun x => decide (x = c)) ≠ [] := by
    rw [hstart]
    exact List.append_ne_nil_of_right_ne_nil _ (List.cons_ne_nil _ _)
  have hnot := List.rdropWhile_last_not (fun x => decide (x = c)) s.toList hne
  refine hnot (decide_eq_true ?_)
  have := List.getLast?_eq_some_getLast hne
  rw [hlast] at this
  exact (Option.some.inj this).symm

/-- `/health` is in the path exactly if there is nothing behind the path. -/
theorem healthInPath_iff (base : String) :
    HealthInPath base (healthUrl base) ↔ UrlText.Bare base.toList := by
  have hhealth : UrlText.Bare "/health".toList := by decide
  have hlist : (healthUrl base).toList = (trimEndMatches '/' base).toList ++ "/health".toList :=
    String.toList_append
  rw [← bare_trimEnd]
  constructor
  · intro h
    by_contra hbare
    have hpath := h.path
    rw [hlist, UrlText.path_append_of_not_bare hbare] at hpath
    rw [List.self_eq_append_right] at hpath
    cases hpath
  · intro hbare
    refine ⟨?_, ?_⟩
    · rw [hlist]
      exact UrlText.path_append hbare hhealth (trimEnd_getLast '/' base) (by decide)
    · intro q hq
      rw [hlist, UrlText.query_bare (hbare.append hhealth)] at hq
      cases hq

/-- A URL with a token in it is not bare. -/
theorem bare_tokened (up : Upstream) (url : String) :
    UrlText.Bare (up.tokened url).toList ↔
      UrlText.Bare url.toList ∧ (up.token = none ∨ url = "") := by
  cases htoken : up.token with
  | none =>
      have hvalue : up.tokened url = url := by rw [Upstream.tokened, htoken]
      rw [hvalue]
      exact ⟨fun h => ⟨h, Or.inl rfl⟩, fun h => h.1⟩
  | some token =>
      have hvalue : up.tokened url = withToken url up.tokenParam token := by
        rw [Upstream.tokened, htoken]
      rw [hvalue]
      constructor
      · intro h
        rcases withToken_cases url up.tokenParam token with
          ⟨hurl, hvalue⟩ | ⟨-, -, hvalue⟩ | ⟨_, _, hsplit, -⟩
        · rw [hvalue] at h
          exact ⟨h, Or.inr hurl⟩
        · have hmark : "?".toList = ['?'] := rfl
          rw [hvalue, String.toList_append, String.toList_append, hmark] at h
          exact absurd (List.mem_append_right _ (List.mem_cons_self ..)) h.1
        · obtain ⟨more, hmore⟩ := withToken_append url up.tokenParam token
          rw [hmore, String.toList_append, (splitOnce_iff.mp hsplit).1] at h
          exact absurd (List.mem_append_left _ (List.mem_append_right _
            (List.mem_cons_self ..))) h.1
      · rintro ⟨h, hno | hempty⟩
        · cases hno
        · rw [withToken, if_pos hempty]
          decide

/-! ## The derived URLs -/

/-- The name of a scheme. -/
def SchemeName (name : List Char) : Prop :=
  name ≠ [] ∧ UrlText.Bare name ∧ name.all UrlText.isNameChar = true

instance (name : List Char) : Decidable (SchemeName name) :=
  inferInstanceAs (Decidable (name ≠ [] ∧ UrlText.Bare name ∧
    name.all UrlText.isNameChar = true))

/-- What stands behind a scheme and two slashes makes up the parts. -/
theorem parts_scheme {name : List Char} (h : SchemeName name) (rest : List Char) :
    UrlText.path (name ++ ':' :: '/' :: '/' :: rest)
        = (UrlText.cut '?' (UrlText.cut '#' rest).1).1.dropWhile (fun c => c ≠ '/') ∧
      UrlText.query (name ++ ':' :: '/' :: '/' :: rest) = UrlText.query rest ∧
      UrlText.fragment (name ++ ':' :: '/' :: '/' :: rest) = UrlText.fragment rest := by
  obtain ⟨hne, hbare, hchars⟩ := h
  have hstart : UrlText.Bare (name ++ [':', '/', '/']) := hbare.append (by decide)
  have hassoc : ∀ s : List Char,
      name ++ ':' :: '/' :: '/' :: s = (name ++ [':', '/', '/']) ++ s := by
    intro s
    rw [List.append_assoc]
    rfl
  refine ⟨?_, ?_, ?_⟩
  · rw [hassoc, UrlText.path_append_left hstart, ← hassoc]
    exact UrlText.barePath_scheme hne (List.all_eq_true.mp hchars) _
  · rw [hassoc, UrlText.query_append_left hstart]
  · rw [hassoc, UrlText.fragment_append_left hstart]

/-- Two texts that differ in their scheme have the same parts. -/
theorem sameParts_scheme {name name' : List Char} {url url' : String} {rest : List Char}
    (hurl : url.toList = name ++ ':' :: '/' :: '/' :: rest)
    (hurl' : url'.toList = name' ++ ':' :: '/' :: '/' :: rest)
    (hname : SchemeName name) (hname' : SchemeName name') : SameParts url url' := by
  obtain ⟨hpath, hquery, hfragment⟩ := parts_scheme hname rest
  obtain ⟨hpath', hquery', hfragment'⟩ := parts_scheme hname' rest
  have hne : ∀ {u : String} {n : List Char},
      u.toList = n ++ ':' :: '/' :: '/' :: rest → u ≠ "" := by
    rintro u n hu rfl
    cases n <;> cases hu
  refine ⟨?_, ?_, ?_, ?_⟩
  · rw [hurl, hurl', hpath, hpath']
  · rw [hurl, hurl', hquery, hquery']
  · rw [hurl, hurl', hfragment, hfragment']
  · exact ⟨fun h => absurd h (hne hurl'), fun h => absurd h (hne hurl)⟩

/-- Nor does the scheme show at the end of a URL. -/
theorem getLast?_scheme {name name' : List Char} {url url' : String} {rest : List Char}
    (hurl : url.toList = name ++ ':' :: '/' :: '/' :: rest)
    (hurl' : url'.toList = name' ++ ':' :: '/' :: '/' :: rest) :
    url'.toList.getLast? = url.toList.getLast? := by
  rw [hurl, hurl', List.getLast?_append, List.getLast?_append, List.getLast?_cons]
  rfl

theorem stripPrefix_eq_some {start s rest : String} (h : stripPrefix start s = some rest) :
    s.toList = start.toList ++ rest.toList := by
  rw [stripPrefix] at h
  by_cases hstart : start.toList <+: s.toList
  · rw [if_pos hstart] at h
    rw [← Option.some.inj h, String.toList_ofList]
    exact (List.prefix_iff_eq_append.mp hstart).symm
  · rw [if_neg hstart] at h
    cases h

/-- The WebSocket base has the parts of the base, and ends as it does. -/
theorem deriveWsUrl_parts {base ws : String} (h : deriveWsUrl base = .ok ws)
    (hend : base.toList.getLast? ≠ some '/') :
    SameParts base ws ∧ ws.toList.getLast? ≠ some '/' := by
  rw [deriveWsUrl] at h
  cases hs : stripPrefix "https://" base with
  | some rest =>
      rw [hs] at h
      have hbase : base.toList = "https".toList ++ ':' :: '/' :: '/' :: rest.toList :=
        stripPrefix_eq_some hs
      have hws : ws.toList = "wss".toList ++ ':' :: '/' :: '/' :: rest.toList := by
        rw [← Except.ok.inj h, String.toList_append]
        rfl
      exact ⟨sameParts_scheme hbase hws (by decide) (by decide),
        (getLast?_scheme hbase hws).trans_ne hend⟩
  | none =>
      rw [hs] at h
      dsimp only at h
      cases hp : stripPrefix "http://" base with
      | some rest =>
          rw [hp] at h
          have hbase : base.toList = "http".toList ++ ':' :: '/' :: '/' :: rest.toList :=
            stripPrefix_eq_some hp
          have hws : ws.toList = "ws".toList ++ ':' :: '/' :: '/' :: rest.toList := by
            rw [← Except.ok.inj h, String.toList_append]
            rfl
          exact ⟨sameParts_scheme hbase hws (by decide) (by decide),
            (getLast?_scheme hbase hws).trans_ne hend⟩
      | none =>
          rw [hp] at h
          dsimp only at h
          -- a base that is a websocket URL already is kept as it is
          by_cases hwss : (stripPrefix "ws://" base).isSome = true ∨
              (stripPrefix "wss://" base).isSome = true
          · rw [if_pos hwss] at h
            rw [← Except.ok.inj h]
            exact ⟨⟨rfl, rfl, rfl, Iff.rfl⟩, hend⟩
          · rw [if_neg hwss] at h
            cases h

/-- The derived URLs are the base, and its WebSocket form, with the chain's paths. -/
theorem deriveEndpoints_ok {kind : UpstreamKind} {base : String} {chain : Chain}
    {urls : String × String} (h : deriveEndpoints kind base chain = .ok urls) :
    urls.1 = base ++ (chainPaths kind chain).1 ∧
      ∀ path, (chainPaths kind chain).2 = some path →
        ∃ ws, deriveWsUrl base = .ok ws ∧ urls.2 = ws ++ path := by
  cases kind with
  | Neve =>
      simp only [deriveEndpoints] at h
      cases hws : deriveWsUrl base with
      | error e =>
          rw [hws] at h
          cases h
      | ok ws =>
          rw [hws] at h
          obtain rfl := Except.ok.inj h
          refine ⟨String.append_empty.symm, ?_⟩
          rintro path ⟨⟩
          exact ⟨ws, rfl, String.append_empty.symm⟩
  | Avalanchego =>
      cases chain with
      | P =>
          obtain rfl := Except.ok.inj h
          refine ⟨rfl, ?_⟩
          rintro path ⟨⟩
      | C =>
          simp only [deriveEndpoints, wsPath] at h
          cases hws : deriveWsUrl base with
          | error e =>
              rw [hws] at h
              cases h
          | ok ws =>
              rw [hws] at h
              obtain rfl := Except.ok.inj h
              refine ⟨rfl, ?_⟩
              rintro path ⟨⟩
              exact ⟨ws, rfl, rfl⟩

theorem chainPaths_paths (kind : UpstreamKind) (chain : Chain) :
    ChainPath (chainPaths kind chain).1 ∧
      ∀ path, (chainPaths kind chain).2 = some path → ChainPath path := by
  cases kind with
  | Neve =>
      refine ⟨Or.inl rfl, ?_⟩
      rintro path ⟨⟩
      exact Or.inl rfl
  | Avalanchego =>
      cases chain with
      | C =>
          refine ⟨Or.inr ⟨'e', _, rfl, by decide, by decide⟩, ?_⟩
          rintro path ⟨⟩
          exact Or.inr ⟨'e', _, rfl, by decide, by decide⟩
      | P =>
          refine ⟨Or.inr ⟨'e', _, rfl, by decide, by decide⟩, ?_⟩
          rintro path ⟨⟩

/-! ## A chain's URLs -/

theorem SameParts.refl (url : String) : SameParts url url := ⟨rfl, rfl, rfl, Iff.rfl⟩

/-- A URL that is written keeps its parts exactly when the token fits. -/
theorem keepsParts_written {up : Upstream} (url : String) :
    KeepsParts up (url, "") (up.tokened url) ↔ Fits up (url, "") := by
  have hiff : KeepsParts up (url, "") (up.tokened (url ++ "")) ↔ Fits up (url, "") :=
    keepsParts_iff (SameParts.refl url) (Or.inl rfl) (fun h => absurd rfl h)
      fun h => absurd rfl h
  rw [String.append_empty] at hiff
  exact hiff

section Run

variable {X : Formats} {files : Files} {env : Env} {file : UpstreamFile} {network : Network}
  {preTokened : Bool} {up : Upstream} {notices more : List Notice} {x : Chain}
  {defaults per : ChainFile} {baseDir : String} {cfg : ChainCfg} {urls : String × String}

/-- A base that was resolved does not end in a slash. -/
theorem base_getLast (hup : resolveUpstream X files env file network preTokened
    = .ok (up, notices)) : up.base.toList.getLast? ≠ some '/' ∧ up.base ≠ "" := by
  obtain ⟨why, hresolved⟩ := resolveUpstream_ok hup
  refine ⟨?_, hresolved.base_ne⟩
  rw [hresolved.base]
  exact trimEnd_getLast '/' _

theorem ChainResolved.rpc_in_place (h : ChainResolved x up defaults per baseDir cfg urls)
    (hend : up.base.toList.getLast? ≠ some '/') (hne : up.base ≠ "") :
    KeepsParts up (rpcSource up x (per.rpcUrl.or defaults.rpcUrl)) cfg.rpcUrl ↔
      Fits up (rpcSource up x (per.rpcUrl.or defaults.rpcUrl)) := by
  have hvalue : cfg.rpcUrl = up.tokened ((per.rpcUrl.or defaults.rpcUrl).getD urls.1) :=
    h.value .rpcUrl
  rw [hvalue]
  cases per.rpcUrl.or defaults.rpcUrl with
  | some url => exact keepsParts_written url
  | none =>
      rw [Option.getD_none, (deriveEndpoints_ok h.derived).1]
      exact keepsParts_iff (SameParts.refl _) (chainPaths_paths up.kind x).1 (fun _ => hend)
        fun _ => hne

theorem ChainResolved.ws_in_place (h : ChainResolved x up defaults per baseDir cfg urls)
    (hend : up.base.toList.getLast? ≠ some '/') (hne : up.base ≠ "") {source : String × String}
    (hsource : wsSource up x (per.wsUrl.or defaults.wsUrl) = some source) :
    KeepsParts up source cfg.wsUrl ↔ Fits up source := by
  have hvalue : cfg.wsUrl = up.tokened ((per.wsUrl.or defaults.wsUrl).getD urls.2) :=
    h.value .wsUrl
  rw [hvalue]
  cases hexplicit : per.wsUrl.or defaults.wsUrl with
  | some url =>
      rw [hexplicit] at hsource
      obtain rfl := Option.some.inj hsource
      exact keepsParts_written url
  | none =>
      rw [hexplicit] at hsource
      obtain ⟨path, hpath, rfl⟩ := Option.map_eq_some_iff.mp hsource
      obtain ⟨ws, hws, hurl⟩ := (deriveEndpoints_ok h.derived).2 path hpath
      obtain ⟨hsame, hend'⟩ := deriveWsUrl_parts hws hend
      rw [Option.getD_none, hurl]
      exact keepsParts_iff hsame ((chainPaths_paths up.kind x).2 path hpath) (fun _ => hend')
        fun _ => hne

/-- On an upstream neve the RPC URL is its source with the token. -/
theorem ChainResolved.rpcUrl_neve (h : ChainResolved x up defaults per baseDir cfg urls)
    (hkind : up.kind = .Neve) :
    cfg.rpcUrl = up.tokened (rpcSource up x (per.rpcUrl.or defaults.rpcUrl)).1 := by
  have hvalue : cfg.rpcUrl = up.tokened ((per.rpcUrl.or defaults.rpcUrl).getD urls.1) :=
    h.value .rpcUrl
  rw [hvalue]
  cases per.rpcUrl.or defaults.rpcUrl with
  | some url => rfl
  | none =>
      rw [Option.getD_none, (deriveEndpoints_ok h.derived).1, hkind]
      exact congrArg up.tokened String.append_empty

/-- **URLs are in place exactly when they fit**: when a chain's path follows a base without
    a query, a token is one parameter, and `/health` follows a URL without query and
    token. -/
theorem upstream_urls_in_place_iff
    (hup : resolveUpstream X files env file network preTokened = .ok (up, notices))
    (hcfg : resolveChain x up defaults per baseDir = .ok (cfg, more)) :
    UrlsInPlace up x (per.rpcUrl.or defaults.rpcUrl) (per.wsUrl.or defaults.wsUrl) cfg ↔
      UrlsFit up x (per.rpcUrl.or defaults.rpcUrl) (per.wsUrl.or defaults.wsUrl) := by
  obtain ⟨hend, hne⟩ := base_getLast hup
  obtain ⟨urls, hchain⟩ := resolveChain_ok hcfg
  constructor
  · intro h
    refine ⟨(hchain.rpc_in_place hend hne).mp h.rpc, ?_, ?_⟩
    · intro source hsource
      exact (hchain.ws_in_place hend hne hsource).mp (h.ws source hsource)
    · intro hkind
      obtain ⟨hbase, hrpc⟩ := h.health hkind
      rw [fetchUpstreamMinHeightUrl, healthInPath_iff] at hbase
      rw [fetchUpstreamContiguousUrl, healthInPath_iff] at hrpc
      rw [hchain.rpcUrl_neve hkind, bare_tokened] at hrpc
      exact ⟨hbase, hrpc⟩
  · intro h
    refine ⟨(hchain.rpc_in_place hend hne).mpr h.rpc, ?_, ?_, ?_⟩
    · intro source hsource
      exact (hchain.ws_in_place hend hne hsource).mpr (h.ws source hsource)
    · intro hkind
      rw [fetchUpstreamMinHeightUrl, fetchUpstreamContiguousUrl, healthInPath_iff,
        healthInPath_iff, hchain.rpcUrl_neve hkind, bare_tokened]
      exact h.health hkind
    · intro url param token hname hfree
      exact withToken_twice url token hname hfree

end Run

/-- A node behind a path of its host, with a token. -/
def tokenUpstream : Upstream :=
  ⟨.Avalanchego, "http://node/avax", some ⟨"k"⟩, "token", none, none, none⟩

def tokenChain : ChainCfg :=
  { sampleChain .C 0 with
    rpcUrl := "http://node/avax/ext/bc/C/rpc?token=k"
    wsUrl := "ws://node/avax/ext/bc/C/ws?token=k"
    hostPacer := none }

theorem upstream_urls_in_place_iff_token :
    UrlsInPlace tokenUpstream .C none none tokenChain := by
  have hup : ∃ notices, resolveUpstream sampleFormats (fun _ => .missing)
      ⟨fun var => if var = "NEVE_UPSTREAM_TOKEN" then some "k" else none, none⟩
      ⟨none, some "http://node/avax/", none, none, none⟩ .Mainnet false
      = .ok (tokenUpstream, notices) := ⟨[capNotice sampleFormats none
        "an upstream token is in play, and bypassing the limit is what a token is for"],
      by decide +kernel⟩
  have hcfg : resolveChain .C tokenUpstream .default .default "./blockstore-data-mainnet"
      = .ok (tokenChain, []) := by decide +kernel
  obtain ⟨notices, hup⟩ := hup
  have hfits : ∀ path : String, Fits tokenUpstream ("http://node/avax", path) := by
    intro path
    have hbare : UrlText.Bare "http://node/avax".toList := by decide
    refine ⟨Or.inr hbare, ?_⟩
    rintro token ⟨⟩ _ _ _
    exact Or.inl (by decide)
  refine (upstream_urls_in_place_iff hup hcfg).mpr ⟨hfits _, ?_, ?_⟩
  · rintro source ⟨⟩
    exact hfits _
  · rintro ⟨⟩

/-- With a key in the base of a node, `/ext/bc/C/rpc` is the end of the key; with a token
    for an upstream neve, `/health` is the end of the token. -/
theorem path_behind_query :
    (∃ files env notices up cfg more,
      resolveUpstream sampleFormats files env
          ⟨none, some "https://node?key=1", none, none, none⟩
          .Mainnet false = .ok (up, notices) ∧
        resolveChain .C up .default .default "./blockstore-data-mainnet" = .ok (cfg, more) ∧
        ¬ UrlsInPlace up .C none none cfg) ∧
    ∃ files env notices up cfg more,
      resolveUpstream sampleFormats files env
          ⟨some .Neve, some "http://10.0.0.5:8545", none, none, none⟩ .Mainnet false
          = .ok (up, notices) ∧
        resolveChain .C up .default .default "./blockstore-data-mainnet" = .ok (cfg, more) ∧
        ¬ UrlsInPlace up .C none none cfg := by
  refine ⟨⟨fun _ => .missing, ⟨fun _ => none, none⟩, sampleNotices [],
    ⟨.Avalanchego, "https://node?key=1", none, "token", none, some (.finite 25),
      some (40 * 10 ^ 6)⟩,
    { sampleChain .C 0 with
      rpcUrl := "https://node?key=1/ext/bc/C/rpc"
      wsUrl := "wss://node?key=1/ext/bc/C/ws" }, [], by decide +kernel, by decide +kernel, ?_⟩,
    fun _ => .missing,
    ⟨fun var => if var = "NEVE_UPSTREAM_TOKEN" then some "k" else none, none⟩,
    [capNotice sampleFormats none "upstream is another neve, which has no rate limit"],
    ⟨.Neve, "http://10.0.0.5:8545", some ⟨"k"⟩, "token", none, none, none⟩,
    { sampleChain .C 0 with
      rpcUrl := "http://10.0.0.5:8545?token=k"
      wsUrl := "ws://10.0.0.5:8545?token=k"
      requestInterval := 0
      subscribeBlocks := true
      hostPacer := none }, [], by decide +kernel, by decide +kernel, ?_⟩
  · intro h
    exact absurd h.rpc.path (by decide)
  · intro h
    exact absurd (h.health rfl).2.path (by decide)

end NeveConfig

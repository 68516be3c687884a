import Marvin.Fault
import Marvin.Data.Bytes

namespace Marvin.Http

open Marvin.Data

/-! # Uris

`marvin/http/uri.cpp`.  `http::ParseHttpUrl` is not part of the repository.  It
enters as a parameter whose pieces are disjoint slices of the text and whose
port is an `int`; `UrlParser.slicing` is the behaviour it is known for.
-/

structure HttpUrl where
  protocol : Bytes
  user : Bytes
  password : Bytes
  host : Bytes
  path : Bytes
  search : Bytes
  port : Int
deriving DecidableEq, Repr

structure UrlParser where
  parseHttpUrl : Bytes → HttpUrl
  slices (text : Bytes) :
    (parseHttpUrl text).host.length + (parseHttpUrl text).path.length +
      (parseHttpUrl text).search.length ≤ text.length
  machinePort (text : Bytes) : (parseHttpUrl text).port.natAbs ≤ 2 ^ 31

structure Uri where
  scheme : Bytes
  user : Bytes
  password : Bytes
  userAndPassword : Bytes
  server : Bytes
  /-- `host_and_port()`. -/
  host : Bytes
  port : Int
  relativePath : Bytes
  absolutePath : Bytes
  search : Bytes
deriving DecidableEq, Repr

namespace Uri

/-- `port_int`, with the two assertions on it. -/
def portOf (url : HttpUrl) : Except Fault Int := do
  let port ←
    if url.port = 0 then
      if url.protocol = ascii "https" then pure 443
      else if url.protocol = ascii "http" then pure 80
      else throw .noDefaultPort
    else pure url.port
  if port = 0 then throw .portIsZero
  return port

def relativePathOf (url : HttpUrl) : Bytes :=
  if url.path = [] ∧ url.search = [] then ascii "/"
  else if url.path = [] ∧ url.search ≠ [] then ascii "/?" ++ url.search
  else if url.path ≠ [] ∧ url.search = [] then url.path
  else url.path ++ ascii "?" ++ url.search

def ofText (urls : UrlParser) (text : Bytes) : Except Fault Uri := do
  let url := urls.parseHttpUrl text
  let port ← portOf url
  let host := url.host ++ ascii ":" ++ signedDecimal port
  let relativePath := relativePathOf url
  let named := url.user ≠ [] ∧ url.password ≠ []
  return {
    scheme := url.protocol
    user := url.user
    password := if named then url.password else []
    userAndPassword := if named then url.user ++ ascii ": " ++ url.password else []
    server := url.host
    host := host
    port := port
    relativePath := relativePath
    absolutePath := url.protocol ++ ascii "://" ++ host ++ relativePath
    search := url.search }

/-- The texts no assertion of the constructor stops: those with a port, or with
a scheme that has a default one. -/
def Accepted (urls : UrlParser) (text : Bytes) : Prop :=
  (urls.parseHttpUrl text).port ≠ 0 ∨ (urls.parseHttpUrl text).protocol = ascii "https" ∨
    (urls.parseHttpUrl text).protocol = ascii "http"

instance (urls : UrlParser) (text : Bytes) : Decidable (Accepted urls text) :=
  inferInstanceAs (Decidable (_ ∨ _ ∨ _))

/-- A port is the one that is given, or the default one of the scheme. -/
theorem portOf_cases (url : HttpUrl) :
    (url.port ≠ 0 ∧ portOf url = .ok url.port) ∨
      (url.port = 0 ∧ url.protocol = ascii "https" ∧ portOf url = .ok 443) ∨
      (url.port = 0 ∧ url.protocol = ascii "http" ∧ portOf url = .ok 80) ∨
      (url.port = 0 ∧ url.protocol ≠ ascii "https" ∧ url.protocol ≠ ascii "http" ∧
        portOf url = .error .noDefaultPort) := by
  unfold portOf
  by_cases none : url.port = 0
  · by_cases secure : url.protocol = ascii "https"
    · exact .inr (.inl ⟨none, secure, by simp [none, secure, bind, Except.bind, pure, Except.pure]⟩)
    · by_cases plain : url.protocol = ascii "http"
      · exact .inr (.inr (.inl ⟨none, plain,
          by simp [none, plain, ascii, bind, Except.bind, pure, Except.pure]⟩))
      · exact .inr (.inr (.inr ⟨none, secure, plain, by
          simp [none, secure, plain, bind, Except.bind, throw, throwThe, MonadExceptOf.throw]⟩))
  · exact .inl ⟨none, by simp [none, bind, Except.bind, pure, Except.pure]⟩

theorem portOf_ok {urls : UrlParser} {text : Bytes} (accepted : Accepted urls text) :
    ∃ port, portOf (urls.parseHttpUrl text) = .ok port ∧ port.natAbs ≤ 2 ^ 31 := by
  obtain ⟨_, given⟩ | ⟨_, _, secure⟩ | ⟨_, _, plain⟩ | ⟨none, insecure, unknown, _⟩ :=
    portOf_cases (urls.parseHttpUrl text)
  · exact ⟨_, given, urls.machinePort text⟩
  · exact ⟨443, secure, by decide⟩
  · exact ⟨80, plain, by decide⟩
  · exact absurd accepted (not_or.mpr ⟨not_not.mpr none, not_or.mpr ⟨insecure, unknown⟩⟩)

theorem accepted_of_portOf {urls : UrlParser} {text : Bytes} {port : Int}
    (made : portOf (urls.parseHttpUrl text) = .ok port) : Accepted urls text := by
  obtain ⟨given, _⟩ | ⟨_, secure, _⟩ | ⟨_, plain, _⟩ | ⟨_, _, _, refused⟩ :=
    portOf_cases (urls.parseHttpUrl text)
  · exact .inl given
  · exact .inr (.inl secure)
  · exact .inr (.inr plain)
  · cases refused.symm.trans made

theorem ofText_ok {urls : UrlParser} {text : Bytes} (accepted : Accepted urls text) :
    ∃ uri, ofText urls text = .ok uri ∧
      uri.relativePath = relativePathOf (urls.parseHttpUrl text) ∧
      ∃ port : Int, port.natAbs ≤ 2 ^ 31 ∧
        uri.host = (urls.parseHttpUrl text).host ++ ascii ":" ++ signedDecimal port := by
  obtain ⟨port, made, bound⟩ := portOf_ok accepted
  simp only [ofText, made, bind, Except.bind, pure, Except.pure, Except.ok.injEq, exists_eq_left']
  exact ⟨trivial, port, bound, rfl⟩

theorem server_ofText {urls : UrlParser} {text : Bytes} {uri : Uri}
    (made : ofText urls text = .ok uri) : uri.server = (urls.parseHttpUrl text).host := by
  obtain ⟨port, _, rest⟩ := exists_ok_of_bind made
  cases rest
  rfl

theorem accepted_of_ofText {urls : UrlParser} {text : Bytes} {uri : Uri}
    (made : ofText urls text = .ok uri) : Accepted urls text := by
  obtain ⟨port, found, _⟩ := exists_ok_of_bind made
  exact accepted_of_portOf found

end Uri

/-! ## The slicing parser -/

/-- Splits at the first occurrence; without one, everything is before it. -/
def headAndTail (delimiter text : Bytes) : Bytes × Bytes :=
  (splitFirst delimiter text).getD (text, [])

/-- Splits at the first occurrence; without one, everything is after it. -/
def prefixAndRest (delimiter text : Bytes) : Bytes × Bytes :=
  (splitFirst delimiter text).getD ([], text)

def sliceUrl (text : Bytes) : HttpUrl :=
  let (protocol, text) := prefixAndRest (ascii "://") text
  let (text, search) := headAndTail (ascii "?") text
  let path := text.dropWhile (· ≠ 47)
  let (userAndPassword, text) := prefixAndRest (ascii "@") (text.takeWhile (· ≠ 47))
  let (user, password) := headAndTail (ascii ":") userAndPassword
  let (host, port) := headAndTail (ascii ":") text
  { protocol, user, password, host, path, search, port := atoi port }

theorem headAndTail_length (delimiter text : Bytes) :
    (headAndTail delimiter text).1.length + (headAndTail delimiter text).2.length ≤ text.length := by
  unfold headAndTail
  cases found : splitFirst delimiter text with
  | none => simp
  | some parts =>
      have whole := splitFirst_length found
      simp only [Option.getD_some]
      omega

theorem prefixAndRest_length (delimiter text : Bytes) :
    (prefixAndRest delimiter text).1.length + (prefixAndRest delimiter text).2.length ≤
      text.length := by
  unfold prefixAndRest
  cases found : splitFirst delimiter text with
  | none => simp
  | some parts =>
      have whole := splitFirst_length found
      simp only [Option.getD_some]
      omega

theorem atoi_natAbs_le (text : Bytes) : (atoi text).natAbs ≤ 2 ^ 31 := by
  have bounds := atoi_bounds text
  omega

def UrlParser.slicing : UrlParser where
  parseHttpUrl := sliceUrl
  slices text := by
    simp only [sliceUrl]
    have protocol := prefixAndRest_length (ascii "://") text
    have search := headAndTail_length (ascii "?") (prefixAndRest (ascii "://") text).2
    generalize (headAndTail (ascii "?") (prefixAndRest (ascii "://") text).2).1 = location at *
    have user := prefixAndRest_length (ascii "@") (location.takeWhile (· ≠ 47))
    have host := headAndTail_length (ascii ":")
      (prefixAndRest (ascii "@") (location.takeWhile (· ≠ 47))).2
    have cut := congrArg List.length
      (@List.takeWhile_append_dropWhile _ (fun byte : UInt8 => decide (byte ≠ 47)) location)
    rw [List.length_append] at cut
    omega
  machinePort text := atoi_natAbs_le _

end Marvin.Http

/-
The Trefle client: its mapping onto the catalogue's records, and `fetch_all`, which reads the upstream
page by page and asks for the detail of every entry of a page. A request is retried while its failures
are transient; the breaker sees the outcome of the retried whole. The upstream is what it answers to each
request of one fetch: a page or the entry at an index of a page, at each of its attempts.
-/
import Plantkeeper.External.CircuitBreaker
import Plantkeeper.Saga.SpeciesSync

namespace Plantkeeper.External.Trefle

open Plantkeeper.Saga (SpeciesRecord)

/-! ## The mapping -/

/-- `TrefleGrowth`: the indicators that are mapped. -/
structure Growth where
  light : Option ℤ
  soilHumidity : Option ℤ
  deriving DecidableEq

/-- `TrefleSpeciesDetail`. -/
structure SpeciesDetail where
  slug : String
  scientificName : List Char
  commonName : Option (List Char)
  growth : Option Growth
  deriving DecidableEq

def DEFAULT_LIGHT_REQUIREMENT : LightRequirement := .medium
def DEFAULT_WATERING_INTERVAL : WateringInterval := .weekly
def ELLENBERG_LIGHT_MAX : ℤ := 9
def ELLENBERG_SOIL_HUMIDITY_MAX : ℤ := 12

def lightRequirementFor : Option ℤ → LightRequirement
  | none => DEFAULT_LIGHT_REQUIREMENT
  | some light =>
    let clamped := min (max light 1) ELLENBERG_LIGHT_MAX
    if clamped ≤ 3 then .low else if clamped ≤ 6 then .medium else .high

/-- The highest Ellenberg F of each band and the days between waterings. -/
def WATERING_BANDS : List (ℤ × WateringInterval) :=
  [(2, ⟨days 3, by decide⟩), (4, ⟨days 5, by decide⟩), (6, .weekly), (8, ⟨days 10, by decide⟩),
    (10, ⟨days 14, by decide⟩), (12, ⟨days 21, by decide⟩)]

def wateringIntervalFor : Option ℤ → WateringInterval
  | none => DEFAULT_WATERING_INTERVAL
  | some soilHumidity =>
    let clamped := min (max soilHumidity 1) ELLENBERG_SOIL_HUMIDITY_MAX
    ((WATERING_BANDS.find? fun band => clamped ≤ band.1).map Prod.snd).getD DEFAULT_WATERING_INTERVAL

/-- `record_from_detail`; `speciesIdFor` is the `uuid5` of the slug in Trefle's namespace. An empty common name
is no name. -/
def recordFromDetail (speciesIdFor : String → SpeciesId) (detail : SpeciesDetail) : Option SpeciesRecord :=
  let scientificName := strip detail.scientificName
  if scientificName = [] then none
  else
    let given := (detail.commonName.filter fun name => name ≠ []).getD scientificName
    let commonName := if strip given = [] then scientificName else strip given
    some ⟨speciesIdFor detail.slug, scientificName, commonName,
      wateringIntervalFor (detail.growth.bind Growth.soilHumidity), lightRequirementFor (detail.growth.bind Growth.light)⟩

/-! ## Requests -/

/-- `TrefleListResponse`: the slugs of the entries, and the link to the next page. -/
structure ListResponse where
  data : List String
  nextPage : Option String
  deriving DecidableEq

/-- Whether a page has entries and a next page; an empty link is none. -/
def ListResponse.continues (r : ListResponse) : Bool :=
  !r.data.isEmpty && r.nextPage.any fun link => link ≠ ""

/-- What an HTTP request comes to. -/
inductive Answer (Body : Type)
  | transportError
  | requestError
  | response (status : ℕ) (body : Body)
  deriving DecidableEq

inductive HttpError
  | transport
  | request
  | status (code : ℕ)
  deriving DecidableEq, Repr

/-- What `fetch_all` raises. -/
inductive Error
  | circuitOpen
  | trefleAuth
  | trefleRecordMissing
  | trefleUnavailable
  | trefleClient
  | requestError
  | jsonDecode
  | validation
  deriving DecidableEq, Repr

/-- `raise_for_status`. -/
def Answer.raiseForStatus {Body : Type} : Answer Body → Except HttpError Body
  | .transportError => .error .transport
  | .requestError => .error .request
  | .response status body => if 200 ≤ status ∧ status < 300 then .ok body else .error (.status status)

/-- `_is_transient`. -/
def HttpError.isTransient : HttpError → Bool
  | .transport => true
  | .request => false
  | .status code => code = 429 || 500 ≤ code

/-- The `except` clauses of `_get`, with `_translate_status`. -/
def HttpError.translate : HttpError → Error
  | .transport => .trefleUnavailable
  | .request => .requestError
  | .status code =>
    if code = 401 ∨ code = 403 then .trefleAuth
    else if code = 404 ∨ code = 422 then .trefleRecordMissing
    else if code = 429 ∨ 500 ≤ code then .trefleUnavailable
    else .trefleClient

/-- What reads a body: `response.json()`, where `none` is a `JSONDecodeError`, and the validation of a list
page and of a detail. -/
structure Wire (Body V : Type) where
  json : Body → Option V
  listResponse : V → Option ListResponse
  detailResponse : V → Option SpeciesDetail
  speciesIdFor : String → SpeciesId

structure Client where
  token : String
  speciesLimit : ℕ
  maxAttempts : ℕ
  breaker : BreakerSettings

/-- What the upstream answers to each attempt of each request of a fetch, and the clock as the breaker reads it
before and after the calls, by their number. -/
structure Upstream (Body : Type) where
  list : (page attempt : ℕ) → Answer Body
  detail : (page index attempt : ℕ) → Answer Body
  before : ℕ → Instant
  after : ℕ → Instant

/-- The process as a fetch goes on: the breaker, the calls made of it and the requests sent. -/
structure Session where
  breaker : CircuitBreaker
  calls : ℕ
  sent : ℕ
  deriving DecidableEq

/-- `_with_retry`: the attempts made and the outcome of the last, with `left` more allowed. -/
def withRetry {Body : Type} (answers : ℕ → Answer Body) : (left attempt : ℕ) → ℕ × Except HttpError Body
  | left, attempt =>
    match (answers attempt).raiseForStatus, left with
    | .ok body, _ => (attempt + 1, .ok body)
    | .error e, 0 => (attempt + 1, .error e)
    | .error e, left + 1 => if e.isTransient then withRetry answers left (attempt + 1) else (attempt + 1, .error e)

section

variable {Body V : Type} (wire : Wire Body V) (client : Client) (up : Upstream Body)

/-- The retried request as the breaker's operation. An answer is awaited once even if no attempt is allowed. -/
def operation (answers : ℕ → Answer Body) : ℕ × Except HttpError Body := withRetry answers (client.maxAttempts - 1) 0

/-- `_get`. -/
def get (answers : ℕ → Answer Body) (s : Session) : Session × Except Error Body :=
  let (attempts, outcome) := operation client answers
  match s.breaker.call client.breaker (up.before s.calls) (up.after s.calls) outcome with
  | (breaker, none) => (⟨breaker, s.calls + 1, s.sent⟩, .error .circuitOpen)
  | (breaker, some outcome) => (⟨breaker, s.calls + 1, s.sent + attempts⟩, outcome.mapError HttpError.translate)

/-- `TrefleListResponse.model_validate(response.json())`. -/
def parseList (body : Body) : Except Error ListResponse :=
  match wire.json body with
  | none => .error .jsonDecode
  | some v =>
    match wire.listResponse v with
    | none => .error .validation
    | some payload => .ok payload

/-- The record of a detail's body, if it validates and can be mapped. -/
def parseDetail (body : Body) : Except Error (Option SpeciesRecord) :=
  match wire.json body with
  | none => .error .jsonDecode
  | some v => .ok ((wire.detailResponse v).bind (recordFromDetail wire.speciesIdFor))

/-- `_list_page`. -/
def listPage (page : ℕ) (s : Session) : Session × Except Error ListResponse :=
  match get client up (up.list page) s with
  | (s, .error e) => (s, .error e)
  | (s, .ok body) => (s, parseList wire body)

/-- `_record_for`. -/
def recordFor (page index : ℕ) (s : Session) : Session × Except Error (Option SpeciesRecord) :=
  match get client up (up.detail page index) s with
  | (s, .error .trefleRecordMissing) => (s, .ok none)
  | (s, .error e) => (s, .error e)
  | (s, .ok body) => (s, parseDetail wire body)

/-- `records.setdefault`. -/
def setdefault (records : List SpeciesRecord) (r : SpeciesRecord) : List SpeciesRecord :=
  if records.any fun known => known.speciesId = r.speciesId then records else records ++ [r]

/-- The loop over the entries of a page. -/
def items (page : ℕ) : List String → (index : ℕ) → List SpeciesRecord → Session →
    Session × Except Error (List SpeciesRecord)
  | [], _, records, s => (s, .ok records)
  | _ :: rest, index, records, s =>
    if client.speciesLimit ≤ records.length then (s, .ok records)
    else
      match recordFor wire client up page index s with
      | (s, .error e) => (s, .error e)
      | (s, .ok record) => items page rest (index + 1) (record.elim records (setdefault records)) s

/-- The loop over the pages; `none` is that it has not ended after the pages it was given. -/
def pages : (fuel page : ℕ) → List SpeciesRecord → Session → Session × Option (Except Error (List SpeciesRecord))
  | 0, _, _, s => (s, none)
  | fuel + 1, page, records, s =>
    if client.speciesLimit ≤ records.length then (s, some (.ok records))
    else
      match listPage wire client up page s with
      | (s, .error e) => (s, some (.error e))
      | (s, .ok payload) =>
        if payload.data = [] then (s, some (.ok records))
        else
          match items wire client up page payload.data 0 records s with
          | (s, .error e) => (s, some (.error e))
          | (s, .ok records) =>
            if payload.nextPage.any fun link => link ≠ "" then pages fuel (page + 1) records s else (s, some (.ok records))

/-- `fetch_all` over at most `fuel` turns of its loop. -/
def fetchAll (fuel : ℕ) (s : Session) : Session × Option (Except Error (List SpeciesRecord)) :=
  if client.token = "" then (s, some (.ok [])) else pages wire client up fuel 1 [] s

end

end Plantkeeper.External.Trefle

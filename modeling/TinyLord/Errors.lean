import TinyLord.Lib.Transaction

/-!
# Errors a client sees
-/

open Lib.Transaction

namespace TinyLord

inductive ErrorCode where
  | badRequest
  | validation
  | unauthorized
  | forbidden
  | notFound
  | conflict
  | payloadTooLarge
  | rateLimited
  | internal
  deriving DecidableEq, Repr

def ErrorCode.asStr : ErrorCode → String
  | .badRequest => "bad_request"
  | .validation => "validation"
  | .unauthorized => "unauthorized"
  | .forbidden => "forbidden"
  | .notFound => "not_found"
  | .conflict => "conflict"
  | .payloadTooLarge => "payload_too_large"
  | .rateLimited => "rate_limited"
  | .internal => "internal"

def ErrorCode.status : ErrorCode → Nat
  | .badRequest | .validation => 400
  | .unauthorized => 401
  | .forbidden => 403
  | .notFound => 404
  | .conflict => 409
  | .payloadTooLarge => 413
  | .rateLimited => 429
  | .internal => 500

structure ApiError where
  code : ErrorCode
  message : String
  deriving DecidableEq, Repr

def ApiError.badRequest (msg : String) : ApiError := { code := .badRequest, message := msg }

def ApiError.validation (msg : String) : ApiError := { code := .validation, message := msg }

def ApiError.unauthorized (msg : String) : ApiError := { code := .unauthorized, message := msg }

def ApiError.forbidden (msg : String) : ApiError := { code := .forbidden, message := msg }

def ApiError.notFound (msg : String) : ApiError := { code := .notFound, message := msg }

def ApiError.conflict (msg : String) : ApiError := { code := .conflict, message := msg }

def ApiError.payloadTooLarge (msg : String) : ApiError := { code := .payloadTooLarge, message := msg }

def ApiError.rateLimited (msg : String) : ApiError := { code := .rateLimited, message := msg }

/-- The cause is logged and never sent. -/
def ApiError.internal : ApiError := { code := .internal, message := "internal error" }

def mapSqliteErr : SqlError → ApiError
  | .constraint => .conflict "unique constraint violation"
  | .failure => .internal

end TinyLord

import FlowCompiler.Decode.Document
import FlowCompiler.Decode.Record

namespace FlowCompiler

/-! Settings that shape the compiled program. Every setting has a default, so that a partial
document is a complete description. -/

structure RetryPolicy where
  maxRetries : UInt32
  initialDelaySecs : UInt64
  maxDelaySecs : UInt64
  multiplier : Double
deriving DecidableEq

structure Settings where
  baseUrlEnv : String
  executionIdEnv : String
  responseTimeoutSecs : UInt64
  webhookTimeoutSecs : UInt64
  subflowPollIntervalSecs : UInt64
  subflowMaxPolls : UInt32
  /-- The bound on iterations of a loop that sets no limit. -/
  defaultLoopLimit : UInt32
  httpRetry : RetryPolicy
deriving DecidableEq

variable {σ : Type} [Source σ]

open Decode Decode.Record

namespace RetryPolicy

/-- Three retries, after one second, two seconds and four seconds. -/
def standard : RetryPolicy :=
  ⟨3, 1, 60, .two⟩

def decode : Decoder σ RetryPolicy :=
  decoder "RetryPolicy" (RetryPolicy.mk
    <$> defaulted "max_retries" uint32 standard.maxRetries
    <*> defaulted "initial_delay_secs" uint64 standard.initialDelaySecs
    <*> defaulted "max_delay_secs" uint64 standard.maxDelaySecs
    <*> defaulted "multiplier" double standard.multiplier)

def toJson (policy : RetryPolicy) : Json :=
  .object [
    ("max_retries", .ofUInt32 policy.maxRetries),
    ("initial_delay_secs", .ofUInt64 policy.initialDelaySecs),
    ("max_delay_secs", .ofUInt64 policy.maxDelaySecs),
    ("multiplier", .ofDouble policy.multiplier)]

end RetryPolicy

namespace Settings

def standard : Settings where
  baseUrlEnv := "FLOW_API_BASE_URL"
  executionIdEnv := "GOOGLE_CLOUD_WORKFLOW_EXECUTION_ID"
  responseTimeoutSecs := 86400
  webhookTimeoutSecs := 3600
  subflowPollIntervalSecs := 5
  subflowMaxPolls := 720
  defaultLoopLimit := 100
  httpRetry := .standard

def decode : Decoder σ Settings :=
  decoder "CompilerConfig" (Settings.mk
    <$> defaulted "base_url_env" text standard.baseUrlEnv
    <*> defaulted "execution_id_env" text standard.executionIdEnv
    <*> defaulted "response_timeout_secs" uint64 standard.responseTimeoutSecs
    <*> defaulted "webhook_timeout_secs" uint64 standard.webhookTimeoutSecs
    <*> defaulted "subflow_poll_interval_secs" uint64 standard.subflowPollIntervalSecs
    <*> defaulted "subflow_max_polls" uint32 standard.subflowMaxPolls
    <*> defaulted "default_loop_limit" uint32 standard.defaultLoopLimit
    <*> defaulted "http_retry" RetryPolicy.decode standard.httpRetry)

def toJson (settings : Settings) : Json :=
  .object [
    ("base_url_env", .string settings.baseUrlEnv),
    ("execution_id_env", .string settings.executionIdEnv),
    ("response_timeout_secs", .ofUInt64 settings.responseTimeoutSecs),
    ("webhook_timeout_secs", .ofUInt64 settings.webhookTimeoutSecs),
    ("subflow_poll_interval_secs", .ofUInt64 settings.subflowPollIntervalSecs),
    ("subflow_max_polls", .ofUInt32 settings.subflowMaxPolls),
    ("default_loop_limit", .ofUInt32 settings.defaultLoopLimit),
    ("http_retry", settings.httpRetry.toJson)]

def parse (text : String) : Except DecodeError Settings :=
  document decode text

end Settings

end FlowCompiler

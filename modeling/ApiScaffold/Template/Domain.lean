import ApiScaffold.Template.Basic

/-! The template of a domain: one module with a ping handler. -/
namespace ApiScaffold.Template.Domain
open Text (ofLines)

def modules : String := ofLines [
  "pub mod handler;",
  "pub mod model;"]

/-- A handler that answers a ping, and its routes. -/
def handler : String := ofLines [
  "use axum::\x7brouting::get, Json, Router\x7d;",
  "use serde_json::json;",
  "",
  "#[utoipa::path(get, path = \"/__DOMAIN_NAME__/ping\", tag = \"__DOMAIN_NAME__\")]",
  "pub async fn ping() -> Json<serde_json::Value> \x7b",
  "    Json(json!(\x7b\"ok\": true, \"domain\": \"__DOMAIN_NAME__\"\x7d))",
  "\x7d",
  "",
  "pub fn register___DOMAIN_NAME___routes(router: axum::Router) -> Router \x7b",
  "    router.route(\"/__DOMAIN_NAME__/ping\", get(ping))",
  "\x7d"]

def model : String := ofLines [
  "use serde::\x7bDeserialize, Serialize\x7d;",
  "use utoipa::ToSchema;",
  "",
  "// Table: __DOMAIN_NAME__ (see db/migrations/*_create___DOMAIN_NAME___table)",
  "#[derive(Debug, Clone, Serialize, Deserialize, ToSchema)]",
  "pub struct Record \x7b",
  "    pub id: i64,",
  "\x7d"]

end ApiScaffold.Template.Domain

namespace ApiScaffold.Template

/-- The files of a new domain. `__DOMAIN_NAME__` stands for its name. -/
def domain : Template where
  name := "domain"
  files := [
    ("handler.rs", Domain.handler),
    ("mod.rs", Domain.modules),
    ("model.rs", Domain.model)]
  ordered := by decide +kernel
  safe := by decide +kernel

end ApiScaffold.Template

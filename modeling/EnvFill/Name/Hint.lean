import EnvFill.Name.Basic

/-!
What a variable's name says about its value: a hint on what to enter, the group under which it is
asked for, and whether the value is a secret.
-/

namespace EnvFill.Name

open Regex

structure Hint where
  kind : String
  text : String
  deriving DecidableEq, Repr

def isAnyOf (first : String) (others : List String) : Regex :=
  inOrder [.start, anyOf (literalAnyCase first) (others.map literalAnyCase), .stop]

def endsInAnyOf (first : String) (others : List String) : Regex :=
  inOrder [anyOf (literalAnyCase first) (others.map literalAnyCase), .stop]

def beginsWithAnyOf (first : String) (others : List String) : Regex :=
  .seq .start (anyOf (literal first) (others.map literal))

/-- The hints, each for the names that the expression occurs in; the first that applies counts. -/
def hints : List (Regex × Hint) :=
  [(isAnyOf "DATABASE_URL" ["DB_URL", "POSTGRES_URL"], ⟨"URL", "Database connection string"⟩),
    (isAnyOf "MONGO_URI" ["MONGODB_URI"], ⟨"URL", "MongoDB connection string"⟩),
    (isAnyOf "REDIS_URL" ["REDIS_URI"], ⟨"URL", "Redis connection string"⟩),
    (inOrder
      [.start,
        maybe (anyOf (literalAnyCase "NEXT_PUBLIC_")
          [literalAnyCase "REACT_APP_", literalAnyCase "VITE_"]),
        anyOf (literalAnyCase "API_URL")
          [literalAnyCase "BASE_URL", literalAnyCase "APP_URL", literalAnyCase "SITE_URL",
            literalAnyCase "SERVER_URL", literalAnyCase "BACKEND_URL"],
        .stop],
      ⟨"URL", "HTTP endpoint"⟩),
    (endsInAnyOf "SUPABASE_URL" [], ⟨"URL", "Supabase project URL"⟩),
    (endsInAnyOf "PORT" [], ⟨"Number", "Port number"⟩),
    (endsInAnyOf "SECRET"
      ["TOKEN", "API_KEY", "PRIVATE_KEY", "ACCESS_KEY", "ANON_KEY", "SERVICE_ROLE_KEY"],
      ⟨"Secret", "Sensitive, hidden input"⟩),
    (.alt (literalAnyCase "PASSWORD") (endsInAnyOf "PASS" []),
      ⟨"Secret", "Password, hidden input"⟩),
    (endsInAnyOf "SMTP_HOST" ["MAIL_HOST", "EMAIL_HOST"], ⟨"Host", "Mail server hostname"⟩),
    (endsInAnyOf "SMTP_USER" ["MAIL_USER", "EMAIL_USER", "MAIL_FROM"], ⟨"Email", "Email address"⟩),
    (endsInAnyOf "S3_BUCKET" ["AWS_BUCKET", "BUCKET_NAME"], ⟨"String", "Bucket name"⟩),
    (endsInAnyOf "AWS_REGION" ["REGION"], ⟨"Region", "Cloud region"⟩),
    (endsInAnyOf "DEBUG" ["VERBOSE", "LOG_LEVEL"], ⟨"Flag", "true / false"⟩),
    (beginsWithAnyOf "NEXT_PUBLIC_" ["REACT_APP_", "VITE_"], ⟨"Public", "Exposed to browser"⟩)]

def firstApplying {α : Type} (items : List (Regex × α)) (name : String) : Option α :=
  (items.find? fun item => item.1.occursIn name.toList).map Prod.snd

def hint? (name : String) : Option Hint := firstApplying hints name

def categories : List (Regex × String) :=
  [(beginsWithAnyOf "DATABASE" ["DB_", "MONGO", "POSTGRES", "MYSQL", "REDIS", "SUPABASE"],
      "Database"),
    (beginsWithAnyOf "NEXT_PUBLIC_" [], "Next.js (Public)"),
    (beginsWithAnyOf "REACT_APP_" [], "React (Public)"),
    (beginsWithAnyOf "VITE_" [], "Vite (Public)"),
    (beginsWithAnyOf "AWS_" ["S3_"], "AWS"),
    (beginsWithAnyOf "SMTP_" ["MAIL_", "EMAIL_"], "Email"),
    (beginsWithAnyOf "STRIPE_" [], "Stripe"),
    (beginsWithAnyOf "FIREBASE_" [], "Firebase"),
    (beginsWithAnyOf "AUTH_" ["JWT_", "SESSION_"], "Auth"),
    (beginsWithAnyOf "SENTRY_" [], "Sentry")]

def category? (name : String) : Option String := firstApplying categories name

def secretWords : Regex :=
  anyOf (literalAnyCase "SECRET")
    [literalAnyCase "TOKEN", literalAnyCase "PASSWORD", literalAnyCase "PASS", literalAnyCase "KEY",
      literalAnyCase "PRIVATE", literalAnyCase "AUTH", literalAnyCase "CREDENTIAL"]

def isSecret (name : String) : Bool := secretWords.occursIn name.toList

end EnvFill.Name

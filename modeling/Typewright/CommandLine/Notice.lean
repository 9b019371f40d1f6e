/-!
# What the command says

The lines that the command prints, by what they are about.
-/

namespace Typewright.CommandLine

/-- What the command has to say. -/
inductive Notice
  | settingsCreated
  | settingsUsed
  | urlMissing
  | started (url : String)
  | code (text : String)
  | modelsSaved (count : Nat) (path : String)
  | endpointsSaved (count : Nat) (path : String)
  | failed (reason : String)
  | finished
  | help
  deriving DecidableEq, Repr

/-- The description of the options. -/
def helpText : String :=
  "usage: openapi-ts [-h] [--url URL] [--output OUTPUT] [--endpoints ENDPOINTS]
                  [--compiler \x7bbuiltin,json2ts\x7d] [--init-config] [--verbose]

Генерация TypeScript моделей из OpenAPI

options:
  -h, --help            show this help message and exit
  --url URL             URL или путь к OpenAPI документу
  --output OUTPUT       Файл для TypeScript моделей
  --endpoints ENDPOINTS
                        JSON файл для индекса эндпоинтов
  --compiler \x7bbuiltin,json2ts\x7d
                        Компилятор JSON Schema -> TypeScript
  --init-config         Создать конфиг файл openapi_ts.toml
  --verbose             Подробный лог"

/-- The wording. -/
def Notice.text : Notice → String
  | settingsCreated => "✅ Создан конфиг файл openapi_ts.toml"
  | settingsUsed => "📋 Используется конфиг из openapi_ts.toml"
  | urlMissing => "❌ Ошибка: Укажите --url или создайте конфиг с --init-config"
  | started url => "🚀 Генерация моделей из " ++ url
  | code text => text
  | modelsSaved count path => "💾 " ++ toString count ++ " моделей сохранено в " ++ path
  | endpointsSaved count path => "💾 " ++ toString count ++ " эндпоинтов сохранено в " ++ path
  | failed reason => "❌ Ошибка генерации: " ++ reason
  | finished => "✅ Генерация завершена успешно!"
  | help => helpText

end Typewright.CommandLine
